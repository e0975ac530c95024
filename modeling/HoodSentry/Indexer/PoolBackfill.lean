import HoodSentry.Common.Forward
import HoodSentry.Indexer.Model.PoolBackfill
/-!
# What the backfill of pools records

A pass writes its cursor behind every batch whose inserts and write do not
throw, and never returns to what is before it. A pair that such a batch could
not read, whose provenance was missing or whose factory no protocol has is
therefore not left for a later pass, as the source has it, but for none
(`everyPairRecorded_iff`).
-/

namespace HoodSentry

namespace PoolBackfill

/-! ## One batch -/

section Batch

variable {answers : PassAnswers} {known : List Address}

/-- No insert of the batch throws, and neither does the cursor's write. -/
def Completes (answers : PassAnswers) (known : List Address) (cursor stop : ℕ) : Prop :=
  (∀ pool ∈ batchRows answers known cursor stop, answers.insertRow pool.address = none) ∧
    answers.writeCursor stop = none

/-- Once the batch is done the pair is recorded: it was known, or is one of
its rows, of a protocol's factory. -/
def Records (answers : PassAnswers) (known : List Address) (cursor stop : ℕ) (address : Address) :
    Prop :=
  address ∈ known ∨ ∃ pool ∈ batchRows answers known cursor stop,
    pool.address = address ∧ (pool.row answers).isSome = true

theorem row_address {pool : BackfilledPool} {row : PoolRow} (h : pool.row answers = some row) :
    row.address = pool.address := by
  obtain ⟨factory, -, h⟩ := Option.bind_eq_some_iff.mp h
  obtain ⟨protocol, -, h⟩ := Option.bind_eq_some_iff.mp h
  cases Option.some.inj h
  rfl

/-- One row's insert. -/
theorem mem_keys_insertRow {pool : BackfilledPool} {pools : Table PoolRow.address}
    {address : Address} :
    address ∈ (pools.insertAll (pool.row answers).toList).keys ↔
      address ∈ pools.keys ∨ pool.address = address ∧ (pool.row answers).isSome = true := by
  rw [Table.mem_keys_insertAll]
  refine or_congr Iff.rfl ?_
  cases hrow : pool.row answers with
  | none => simp
  | some row => simp [row_address hrow, eq_comm]

/-- **What the inserts leave**: all of the rows' pools, or those before the
one that throws. -/
theorem insertPools_spec {rows : List BackfilledPool} {pools : Table PoolRow.address}
    {inserted : ℕ} :
    (∃ n, (insertPools answers rows pools inserted).2 = .ok n ∧
      (∀ pool ∈ rows, answers.insertRow pool.address = none) ∧
      ∀ address, address ∈ (insertPools answers rows pools inserted).1.keys ↔
        address ∈ pools.keys ∨
          ∃ pool ∈ rows, pool.address = address ∧ (pool.row answers).isSome = true) ∨
    (∃ message, (insertPools answers rows pools inserted).2 = .error message ∧
      (¬ ∀ pool ∈ rows, answers.insertRow pool.address = none) ∧
      ∀ address, (address ∈ pools.keys →
          address ∈ (insertPools answers rows pools inserted).1.keys) ∧
        (address ∈ (insertPools answers rows pools inserted).1.keys → address ∈ pools.keys ∨
          ∃ pool ∈ rows, pool.address = address)) := by
  induction rows generalizing pools inserted with
  | nil => exact .inl ⟨inserted, rfl, by simp, by simp [insertPools]⟩
  | cons pool rest ih =>
    rw [insertPools]
    split
    · rename_i message hthrows
      refine .inr ⟨message, rfl, fun hall => ?_, fun address => ⟨id, .inl⟩⟩
      rw [hall pool (List.mem_cons_self ..)] at hthrows
      cases hthrows
    · rename_i hinserts
      dsimp only
      rcases @ih (pools.insertAll (pool.row answers).toList)
        (inserted + ((pools.insertAll (pool.row answers).toList).rows.length -
          pools.rows.length)) with ⟨n, hok, hall, hkeys⟩ | ⟨message, herror, hsome, hkeys⟩
      · refine .inl ⟨n, hok, List.forall_mem_cons.mpr ⟨hinserts, hall⟩, fun address => ?_⟩
        rw [hkeys, mem_keys_insertRow, or_assoc, List.exists_mem_cons_iff]
      · refine .inr ⟨message, herror, fun hall => hsome (List.forall_mem_cons.mp hall).2,
          fun address => ⟨fun h => (hkeys address).1 (mem_keys_insertRow.mpr (.inl h)), fun h => ?_⟩⟩
        rcases (hkeys address).2 h with h | ⟨p, hp, hpa⟩
        · rcases mem_keys_insertRow.mp h with h | ⟨h, -⟩
          · exact .inl h
          · exact .inr ⟨pool, List.mem_cons_self .., h⟩
        · exact .inr ⟨p, List.mem_cons_of_mem _ hp, hpa⟩

/-- **What a batch leaves.** Done, it has recorded what it can and the cursor
is behind it; else the cursor is where it was. -/
theorem batch_spec {cursor stop : ℕ} {store : PoolStore} :
    (Completes answers known cursor stop ∧ ∃ n, (batch answers known cursor stop store).2 = .ok n ∧
      (batch answers known cursor stop store).1.cursor = stop ∧
      ∀ address, address ∈ (batch answers known cursor stop store).1.pools.keys ↔
        address ∈ store.pools.keys ∨ ∃ pool ∈ batchRows answers known cursor stop,
          pool.address = address ∧ (pool.row answers).isSome = true) ∨
    (¬ Completes answers known cursor stop ∧ ∃ message,
      (batch answers known cursor stop store).2 = .error message ∧
      (batch answers known cursor stop store).1.cursor = store.cursor ∧
      ∀ address, (address ∈ store.pools.keys →
          address ∈ (batch answers known cursor stop store).1.pools.keys) ∧
        (address ∈ (batch answers known cursor stop store).1.pools.keys →
          address ∈ store.pools.keys ∨ ∃ pool ∈ batchRows answers known cursor stop,
            pool.address = address)) := by
  rcases hinserts : insertPools answers (batchRows answers known cursor stop) store.pools 0 with
    ⟨pools, outcome⟩
  have hspec := @insertPools_spec answers (batchRows answers known cursor stop) store.pools 0
  rw [hinserts] at hspec
  unfold batch Completes
  rcases hspec with ⟨n, hok, hall, hkeys⟩ | ⟨message, herror, hsome, hkeys⟩
  · cases hok
    rw [hinserts]
    cases hwrite : answers.writeCursor stop with
    | none => exact .inl ⟨⟨hall, rfl⟩, n, rfl, rfl, hkeys⟩
    | some message =>
      refine .inr ⟨fun h => (by cases h.2), message, rfl, rfl, fun address => ?_⟩
      refine ⟨fun h => (hkeys address).mpr (.inl h), fun h => ?_⟩
      rcases (hkeys address).mp h with h | ⟨pool, hpool, haddress, -⟩
      · exact .inl h
      · exact .inr ⟨pool, hpool, haddress⟩
  · cases herror
    rw [hinserts]
    exact .inr ⟨fun h => hsome h.1, message, rfl, rfl, hkeys⟩

end Batch

/-! ## One pass -/

/-- The end of the batch that begins here. -/
def stopAt (options : Options) (total cursor : ℕ) : ℕ := min (cursor + options.batchSize) total

/-- **Where a walk can stand**: behind batches that are done. -/
inductive Completed (options : Options) (answers : PassAnswers) (known : List Address)
    (total : ℕ) : ℕ → ℕ → Prop
  | refl (cursor : ℕ) : Completed options answers known total cursor cursor
  | step {cursor stop : ℕ} : cursor < total →
      Completes answers known cursor (stopAt options total cursor) →
      Completed options answers known total (stopAt options total cursor) stop →
      Completed options answers known total cursor stop

/-- A registry: the pairs of a factory by their index, which only grows. -/
structure Registry where
  pairs : ℕ → Address
  distinct : Function.Injective pairs

/-- What the factory answers is the registry's, as far as it goes. -/
structure Truthful (registry : Registry) (total : ℕ) (answers : PassAnswers) : Prop where
  total : ∀ n, answers.totalPairs = .ok n → n = total
  pairs : ∀ i address, answers.pairAtIndex i = .ok address → address = registry.pairs i

/-- Whatever batch the pair is passed in, and done with it, records it. -/
def PassedWell (options : Options) (registry : Registry) (answers : PassAnswers)
    (known : List Address) (total cursor i : ℕ) : Prop :=
  ∀ e, Completed options answers known total cursor e → e < total →
    Completes answers known e (stopAt options total e) → e ≤ i → i < stopAt options total e →
      Records answers known e (stopAt options total e) (registry.pairs i)

section Walk

variable {options : Options} {registry : Registry} {answers : PassAnswers} {known : List Address}
variable {total : ℕ}

variable (options) in
theorem lt_stopAt {cursor : ℕ} (h : cursor < total) : cursor < stopAt options total cursor := by
  have hpositive := options.positive
  unfold stopAt
  omega

theorem stopAt_le {cursor : ℕ} : stopAt options total cursor ≤ total := min_le_right _ _

/-- The pools of a batch are pairs of it. -/
theorem exists_pair_of_batchRows (htrue : Truthful registry total answers) {cursor stop : ℕ}
    {pool : BackfilledPool} (h : pool ∈ batchRows answers known cursor stop) :
    ∃ i, cursor ≤ i ∧ i < stop ∧ pool.address = registry.pairs i := by
  obtain ⟨found, hfound, hpool⟩ := List.mem_filterMap.mp h
  obtain ⟨origin, -, rfl⟩ := Option.map_eq_some_iff.mp hpool
  obtain ⟨i, hi, hcandidate⟩ := List.mem_filterMap.mp hfound
  obtain ⟨k, hk, rfl⟩ := List.mem_range'.mp hi
  refine ⟨cursor + 1 * k, by omega, by omega, ?_⟩
  unfold candidate at hcandidate
  split at hcandidate
  · cases hcandidate
  · rename_i address haddress
    split at hcandidate
    · cases hcandidate
    · split at hcandidate
      · cases hcandidate
      · cases Option.some.inj hcandidate
        exact htrue.pairs _ _ haddress

/-- **What a walk leaves**, with a batch for every pair at most: it stands
behind the batches that are done, and behind all of them; it keeps what was
recorded, records only pairs from its cursor on, and of those it goes past
the ones that are passed well. -/
structure WalkSpec (options : Options) (registry : Registry) (answers : PassAnswers)
    (known : List Address) (total cursor : ℕ) (before after : PoolStore) : Prop where
  stands : Completed options answers known total cursor after.cursor
  furthest : ∀ e, Completed options answers known total cursor e → e ≤ after.cursor
  keeps : ∀ address ∈ before.pools.keys, address ∈ after.pools.keys
  records : ∀ address ∈ after.pools.keys, address ∈ before.pools.keys ∨
    ∃ i, cursor ≤ i ∧ i < total ∧ address = registry.pairs i
  passed : ∀ i, cursor ≤ i → i < after.cursor →
    (registry.pairs i ∈ after.pools.keys ↔
      PassedWell options registry answers known total cursor i)

theorem Completed.le {c e : ℕ} (h : Completed options answers known total c e) : c ≤ e := by
  induction h with
  | refl => exact le_rfl
  | step hlt _ _ ih => exact (lt_stopAt options hlt).le.trans ih

/-- Where it moves at all, it stays within the registry. -/
theorem Completed.eq_or_le {c e : ℕ} (h : Completed options answers known total c e) :
    e = c ∨ e ≤ total := by
  induction h with
  | refl => exact .inl rfl
  | step _ _ _ ih => exact .inr (ih.elim (fun heq => heq.le.trans stopAt_le) id)

/-- The batch a walk begins with is the one its first pairs are passed in. -/
theorem passedWell_first {cursor i : ℕ} (hlt : cursor < total)
    (hcompletes : Completes answers known cursor (stopAt options total cursor))
    (hle : cursor ≤ i) (hi : i < stopAt options total cursor) :
    PassedWell options registry answers known total cursor i ↔
      Records answers known cursor (stopAt options total cursor) (registry.pairs i) := by
  constructor
  · exact fun h => h cursor (.refl cursor) hlt hcompletes hle hi
  · rintro h e he - - hei -
    cases he with
    | refl => exact h
    | step _ _ hrest =>
      have := hrest.le
      omega

/-- The later ones are passed as in the walk from its second batch. -/
theorem passedWell_rest {cursor i : ℕ} (hlt : cursor < total)
    (hcompletes : Completes answers known cursor (stopAt options total cursor))
    (hi : stopAt options total cursor ≤ i) :
    PassedWell options registry answers known total cursor i ↔
      PassedWell options registry answers known total (stopAt options total cursor) i := by
  constructor
  · exact fun h e he => h e (.step hlt hcompletes he)
  · intro h e he helt hecompletes hei hie
    cases he with
    | refl => omega
    | step _ _ hrest => exact h e hrest helt hecompletes hei hie

/-- A walk that goes no further. -/
theorem walkSpec_stays {cursor : ℕ} {before after : PoolStore} (hcursor : after.cursor = cursor)
    (hstuck : ¬ (cursor < total ∧ Completes answers known cursor (stopAt options total cursor)))
    (hkeeps : ∀ address ∈ before.pools.keys, address ∈ after.pools.keys)
    (hrecords : ∀ address ∈ after.pools.keys, address ∈ before.pools.keys ∨
      ∃ i, cursor ≤ i ∧ i < total ∧ address = registry.pairs i) :
    WalkSpec options registry answers known total cursor before after where
  stands := by
    rw [hcursor]
    exact .refl cursor
  furthest e he := by
    cases he with
    | refl => exact hcursor.ge
    | step hlt hcompletes _ => exact absurd ⟨hlt, hcompletes⟩ hstuck
  keeps := hkeeps
  records := hrecords
  passed i hle hlt := by omega

/-- A walk that goes on behind its first batch. -/
theorem walkSpec_goesOn {cursor : ℕ} {before middle after : PoolStore} (hlt : cursor < total)
    (hcompletes : Completes answers known cursor (stopAt options total cursor))
    (hknown : ∀ address ∈ known, address ∈ before.pools.keys)
    (hnew : ∀ i, cursor ≤ i → registry.pairs i ∈ before.pools.keys → registry.pairs i ∈ known)
    (hkeys : ∀ address, address ∈ middle.pools.keys ↔ address ∈ before.pools.keys ∨
      ∃ pool ∈ batchRows answers known cursor (stopAt options total cursor),
        pool.address = address ∧ (pool.row answers).isSome = true)
    (hrows : ∀ {pool : BackfilledPool},
      pool ∈ batchRows answers known cursor (stopAt options total cursor) →
        ∃ i, cursor ≤ i ∧ i < stopAt options total cursor ∧ pool.address = registry.pairs i)
    (hrest : WalkSpec options registry answers known total (stopAt options total cursor) middle
      after) :
    WalkSpec options registry answers known total cursor before after where
  stands := .step hlt hcompletes hrest.stands
  furthest e he := by
    cases he with
    | refl => exact (lt_stopAt options hlt).le.trans hrest.stands.le
    | step _ _ he => exact hrest.furthest e he
  keeps address h := hrest.keeps address ((hkeys address).mpr (.inl h))
  records address h := by
    have hstop : stopAt options total cursor ≤ total := stopAt_le
    have hpast := lt_stopAt options hlt
    rcases hrest.records address h with h | ⟨i, hle, hi, rfl⟩
    · rcases (hkeys address).mp h with h | ⟨pool, hpool, rfl, -⟩
      · exact .inl h
      · obtain ⟨i, hle, hi, hpair⟩ := hrows hpool
        exact .inr ⟨i, hle, by omega, hpair⟩
    · exact .inr ⟨i, by omega, hi, rfl⟩
  passed i hle hi := by
    rcases Nat.lt_or_ge i (stopAt options total cursor) with hfirst | hlater
    · rw [passedWell_first hlt hcompletes hle hfirst, Records]
      constructor
      · intro h
        rcases hrest.records _ h with h | ⟨j, hj, -, hpair⟩
        · exact ((hkeys _).mp h).imp (hnew i hle) id
        · have := registry.distinct hpair
          omega
      · intro h
        exact hrest.keeps _ ((hkeys _).mpr (h.imp (hknown _) id))
    · rw [passedWell_rest hlt hcompletes hlater]
      exact hrest.passed i hlater hi

theorem walk_spec (htrue : Truthful registry total answers) {fuel cursor : ℕ}
    {result : PassResult} {store : PoolStore} (hfuel : total - cursor ≤ fuel)
    (hcursor : store.cursor = cursor) (hknown : ∀ address ∈ known, address ∈ store.pools.keys)
    (hnew : ∀ i, cursor ≤ i → registry.pairs i ∈ store.pools.keys → registry.pairs i ∈ known) :
    WalkSpec options registry answers known total cursor store
      (walk answers known options.batchSize total fuel cursor result store).1 := by
  induction fuel generalizing cursor result store with
  | zero =>
    rw [walk]
    exact walkSpec_stays hcursor (fun h => by omega) (fun _ h => h) fun _ h => .inl h
  | succ fuel ih =>
    rw [walk]
    split
    · rename_i hlt
      have hbatch := @batch_spec answers known cursor (stopAt options total cursor) store
      have hrows := @exists_pair_of_batchRows registry answers known total htrue cursor
        (stopAt options total cursor)
      have hstop : stopAt options total cursor ≤ total := stopAt_le
      dsimp only
      rw [show min (cursor + options.batchSize) total = stopAt options total cursor from rfl]
      rcases hresult : batch answers known cursor (stopAt options total cursor) store with
        ⟨after, outcome⟩
      rw [hresult] at hbatch
      dsimp only at hbatch ⊢
      rcases hbatch with ⟨hcompletes, n, hok, hcursor', hkeys⟩ |
        ⟨hthrows, message, herror, hcursor', hkeys⟩
      · cases hok
        have hpast := lt_stopAt options hlt
        -- a pair behind the first batch is not recorded by it
        have hlater : ∀ i, stopAt options total cursor ≤ i →
            (registry.pairs i ∈ after.pools.keys → registry.pairs i ∈ store.pools.keys) := by
          intro i hi h
          rcases (hkeys _).mp h with h | ⟨pool, hpool, haddress, -⟩
          · exact h
          · obtain ⟨j, -, hj, hpair⟩ := hrows hpool
            have := registry.distinct (haddress.symm.trans hpair)
            omega
        have hrest := @ih (stopAt options total cursor)
          ⟨result.scanned + (stopAt options total cursor - cursor), result.inserted + n⟩ after
          (by omega) hcursor'
          (fun address h => (hkeys address).mpr (.inl (hknown address h)))
          (fun i hi h => hnew i (hpast.le.trans hi) (hlater i hi h))
        exact walkSpec_goesOn hlt hcompletes hknown hnew hkeys hrows hrest
      · cases herror
        refine walkSpec_stays (hcursor'.trans hcursor) (fun h => hthrows h.2)
          (fun address h => (hkeys address).1 h) fun address h => ?_
        rcases (hkeys address).2 h with h | ⟨pool, hpool, rfl⟩
        · exact .inl h
        · obtain ⟨i, hle, hi, hpair⟩ := hrows hpool
          exact .inr ⟨i, hle, by omega, hpair⟩
    · rename_i hlt
      exact walkSpec_stays hcursor (fun h => hlt h.1) (fun _ h => h) fun _ h => .inl h

/-- The calls before the walk do not throw. -/
def Begins (answers : PassAnswers) : Prop :=
  (∃ total, answers.totalPairs = .ok total) ∧ answers.readCursor = none ∧
    answers.knownPoolAddresses = none

variable (options) in
/-- **What a pass leaves.** -/
theorem run_spec (htrue : Truthful registry total answers) (hbegins : Begins answers)
    (store : PoolStore) :
    WalkSpec options registry answers store.pools.keys total store.cursor store
      (run options answers store).1 := by
  obtain ⟨⟨n, htotal⟩, hread, hknown⟩ := hbegins
  cases htrue.total n htotal
  unfold run
  simp only [htotal, hread, hknown]
  split
  · exact walkSpec_stays rfl (fun h => by omega) (fun _ h => h) fun _ h => .inl h
  · exact walk_spec htrue (by omega) rfl (fun _ h => h) fun _ _ h => h

theorem run_of_not_begins (hbegins : ¬ Begins answers) {store : PoolStore} :
    (run options answers store).1 = store := by
  unfold run
  split
  · rfl
  · rename_i n htotal
    split
    · rfl
    · rename_i hread
      split
      · rfl
      · split
        · rfl
        · rename_i hknown
          exact absurd ⟨⟨n, htotal⟩, hread, hknown⟩ hbegins

theorem Completed.snoc {c e : ℕ} (h : Completed options answers known total c e) (he : e < total)
    (hcompletes : Completes answers known e (stopAt options total e)) :
    Completed options answers known total c (stopAt options total e) := by
  induction h with
  | refl => exact .step he hcompletes (.refl _)
  | step hlt hfirst _ ih => exact .step hlt hfirst (ih he hcompletes)

end Walk

/-! ## Passes -/

section Passes

variable (options : Options) (registry : Registry) (passes : ℕ → PassAnswers) (total : ℕ → ℕ)
variable (start : PoolStore)

/-- The store before each pass. -/
def stores : ℕ → PoolStore
  | 0 => start
  | n + 1 => (run options (passes n) (stores n)).1

/-- **The condition on a pass**, in the store it finds: each batch that it
gets to and completes records all of its pairs, or finds them recorded. -/
def SkipsNothing (answers : PassAnswers) (total : ℕ) (store : PoolStore) : Prop :=
  Begins answers → ∀ e, Completed options answers store.pools.keys total store.cursor e →
    e < total → Completes answers store.pools.keys e (stopAt options total e) →
      ∀ i, e ≤ i → i < stopAt options total e →
        Records answers store.pools.keys e (stopAt options total e) (registry.pairs i)

/-- A pair that can be read, resolved with whatever it is asked for along
with, and inserted. -/
structure Fine (answers : PassAnswers) (i : ℕ) : Prop where
  readable : answers.pairAtIndex i = .ok (registry.pairs i)
  tokens : ∃ tokens, answers.pairTokens (registry.pairs i) = .ok tokens
  resolvable : ∀ addresses, registry.pairs i ∈ addresses → ∃ origin factory,
    lookup answers addresses (registry.pairs i) = some origin ∧
      origin.factoryAddress = some factory ∧ (answers.protocols factory).isSome = true
  insertable : answers.insertRow (registry.pairs i) = none

/-- **Each pair fails only finitely often**, and so do the passes' own
calls. -/
structure Settles : Prop where
  begins : ∃ N, ∀ n, N ≤ n → Begins (passes n)
  writes : ∃ N, ∀ n, N ≤ n → ∀ cursor, (passes n).writeCursor cursor = none
  pairs : ∀ i, ∃ N, ∀ n, N ≤ n → i < total n → Fine registry (passes n) i

/-- **Every pair is recorded**: after finitely many passes more, and exactly
once from then on. -/
def EveryPairRecorded : Prop :=
  ∀ n, ∃ M, ∀ m, M ≤ m → ∀ i, i < total n →
    ∃! row, row ∈ (stores options passes start m).pools ∧ row.address = registry.pairs i

end Passes

section Runs

variable {options : Options} {registry : Registry} {passes : ℕ → PassAnswers} {total : ℕ → ℕ}
variable {start : PoolStore}

/-- The condition on a pass, pair by pair. -/
theorem skipsNothing_iff {answers : PassAnswers} {n : ℕ} {store : PoolStore}
    (htrue : Truthful registry n answers) :
    SkipsNothing options registry answers n store ↔
      ∀ i, store.cursor ≤ i → i < (run options answers store).1.cursor →
        PassedWell options registry answers store.pools.keys n store.cursor i := by
  by_cases hbegins : Begins answers
  · have hspec := run_spec options htrue hbegins store
    constructor
    · exact fun h i _ _ e he hlt hcompletes hei hie => h hbegins e he hlt hcompletes i hei hie
    · intro h _ e he hlt hcompletes i hei hie
      have hfar := hspec.furthest _ (he.snoc hlt hcompletes)
      exact h i (he.le.trans hei) (hie.trans_le hfar) e he hlt hcompletes hei hie
  · refine iff_of_true (fun h => absurd h hbegins) fun i hle hlt => ?_
    rw [run_of_not_begins hbegins] at hlt
    omega

/-- **The passes are a walk by a cursor.** -/
theorem cursorWalk_stores (options : Options) (htrue : ∀ n, Truthful registry (total n) (passes n))
    (hstart : start.cursor = 0) :
    CursorWalk (fun n => (stores options passes start n).cursor)
      (fun n i => registry.pairs i ∈ (stores options passes start n).pools.keys)
      (fun n i => PassedWell options registry (passes n)
        (stores options passes start n).pools.keys (total n)
        (stores options passes start n).cursor i) where
  start := hstart
  mono n := by
    rw [stores]
    by_cases hbegins : Begins (passes n)
    · exact (run_spec options (htrue n) hbegins _).stands.le
    · rw [run_of_not_begins hbegins]
  keeps n i h := by
    rw [stores]
    by_cases hbegins : Begins (passes n)
    · exact (run_spec options (htrue n) hbegins _).keeps _ h
    · rwa [run_of_not_begins hbegins]
  behind n i hi h := by
    rw [stores] at h
    by_cases hbegins : Begins (passes n)
    · rcases (run_spec options (htrue n) hbegins _).records _ h with h | ⟨j, hj, -, hpair⟩
      · exact h
      · have := registry.distinct hpair
        omega
    · rwa [run_of_not_begins hbegins] at h
  passes n i hle hlt := by
    rw [stores] at hlt ⊢
    by_cases hbegins : Begins (passes n)
    · exact (run_spec options (htrue n) hbegins _).passed i hle hlt
    · rw [run_of_not_begins hbegins] at hlt
      omega

/-- The cursor only goes past what the registry has. -/
theorem exists_lt_total (htrue : ∀ n, Truthful registry (total n) (passes n))
    (hstart : start.cursor = 0) {n i : ℕ} (h : i < (stores options passes start n).cursor) :
    ∃ m, i < total m := by
  induction n with
  | zero =>
    rw [stores, hstart] at h
    omega
  | succ n ih =>
    rw [stores] at h
    by_cases hbegins : Begins (passes n)
    · rcases (run_spec options (htrue n) hbegins _).stands.eq_or_le with heq | hle
      · rw [heq] at h
        exact ih h
      · exact ⟨n, h.trans_le hle⟩
    · rw [run_of_not_begins hbegins] at h
      exact ih h

/-- **The passes move on** from wherever they stand, once the pairs of the
next batch fail no more. -/
theorem exists_moves (options : Options) (start : PoolStore)
    (htrue : ∀ n, Truthful registry (total n) (passes n))
    (hsettles : Settles registry passes total) (cursor : ℕ) :
    ∃ N, ∀ n, N ≤ n → (stores options passes start n).cursor = cursor → cursor < total n →
      cursor < (stores options passes start (n + 1)).cursor := by
  obtain ⟨N₁, hbegins⟩ := hsettles.begins
  obtain ⟨N₂, hwrites⟩ := hsettles.writes
  choose N₃ hpairs using hsettles.pairs
  refine ⟨max N₁ (max N₂ ((Finset.range (cursor + options.batchSize)).sup N₃)), ?_⟩
  intro n hn hcursor hlt
  have hn₂ : N₂ ≤ n := (le_max_left ..).trans ((le_max_right ..).trans hn)
  have hspec := run_spec options (htrue n) (hbegins n ((le_max_left ..).trans hn))
    (stores options passes start n)
  rw [hcursor] at hspec
  have hcompletes : Completes (passes n) (stores options passes start n).pools.keys cursor
      (stopAt options (total n) cursor) := by
    refine ⟨fun pool hpool => ?_, hwrites n hn₂ _⟩
    obtain ⟨i, -, hi, hpair⟩ := exists_pair_of_batchRows (htrue n) hpool
    have hstop : i < cursor + options.batchSize ∧ i < total n := lt_min_iff.mp hi
    have hn₃ : N₃ i ≤ n := (Finset.le_sup (Finset.mem_range.mpr hstop.1)).trans
      ((le_max_right ..).trans ((le_max_right ..).trans hn))
    rw [hpair]
    exact (hpairs i n hn₃ hstop.2).insertable
  have hfar := hspec.furthest _ (.step hlt hcompletes (.refl _))
  exact (lt_stopAt options hlt).trans_le hfar

theorem everyPairRecorded_iff_exists
    (hkeeps : ∀ m n i, m ≤ n → registry.pairs i ∈ (stores options passes start m).pools.keys →
      registry.pairs i ∈ (stores options passes start n).pools.keys) :
    EveryPairRecorded options registry passes total start ↔
      ∀ i, (∃ n, i < total n) →
        ∃ m, registry.pairs i ∈ (stores options passes start m).pools.keys := by
  constructor
  · rintro h i ⟨n, hn⟩
    obtain ⟨M, hM⟩ := h n
    obtain ⟨row, ⟨hrow, haddress⟩, -⟩ := hM M le_rfl i hn
    exact ⟨M, Table.mem_keys.mpr ⟨row, hrow, haddress⟩⟩
  · intro h n
    have hex : ∀ i, ∃ m, i < total n →
        registry.pairs i ∈ (stores options passes start m).pools.keys := by
      intro i
      by_cases hi : i < total n
      · obtain ⟨m, hm⟩ := h i ⟨n, hi⟩
        exact ⟨m, fun _ => hm⟩
      · exact ⟨0, fun hlt => absurd hlt hi⟩
    choose M hM using hex
    refine ⟨(Finset.range (total n)).sup M, fun m hm i hi => ?_⟩
    have hle : M i ≤ m := (Finset.le_sup (Finset.mem_range.mpr hi)).trans hm
    obtain ⟨row, hrow, haddress⟩ := Table.mem_keys.mp (hkeeps _ _ _ hle (hM i hi))
    refine ⟨row, ⟨hrow, haddress⟩, ?_⟩
    rintro other ⟨hother, hsame⟩
    exact Table.eq_of_key_eq hother hrow (hsame.trans haddress.symm)

/-- **Exactly where every pair is recorded.** Where each pair fails only
finitely often, all of them come to be recorded, and once each, if and only
if no pass completes a batch with a pair that it did not record. -/
theorem everyPairRecorded_iff (options : Options) (registry : Registry)
    (passes : ℕ → PassAnswers) (total : ℕ → ℕ) (start : PoolStore) (hgrow : Monotone total)
    (htrue : ∀ n, Truthful registry (total n) (passes n))
    (hsettles : Settles registry passes total) (hstart : start.cursor = 0) :
    EveryPairRecorded options registry passes total start ↔
      ∀ n, SkipsNothing options registry (passes n) (total n) (stores options passes start n) := by
  have hwalk := cursorWalk_stores options htrue hstart
  have hmoves := exists_moves options start htrue hsettles
  rw [everyPairRecorded_iff_exists fun m n i hle => hwalk.marked_of_le hle,
    hwalk.forall_marked_iff (fun n i => exists_lt_total htrue hstart)
      (hwalk.exists_lt_cursor hgrow hmoves)]
  exact forall_congr' fun n => (skipsNothing_iff (htrue n)).symm

end Runs

/-! ## A pair that could not be read once -/

/-- Every element is in one of the pieces. -/
theorem exists_mem_slices {α : Type} {size : ℕ} (hsize : 0 < size) {l : List α} {a : α}
    (h : a ∈ l) : ∃ chunk ∈ slices size l, a ∈ chunk := by
  obtain ⟨i, hi, rfl⟩ := List.mem_iff_getElem.mp h
  have hdiv : size * (i / size) ≤ i := Nat.mul_div_le i size
  have hmod : i - size * (i / size) < size := by
    have := Nat.mod_lt i hsize
    have := Nat.div_add_mod i size
    omega
  refine ⟨_, List.mem_map.mpr ⟨i / size, List.mem_range.mpr ?_, rfl⟩, ?_⟩
  · have hle : i / size ≤ (l.length - 1) / size := Nat.div_le_div_right (by omega)
    have hceil : (l.length + size - 1) / size = (l.length - 1) / size + 1 := by
      rw [show l.length + size - 1 = l.length - 1 + size by omega, Nat.add_div_right _ hsize]
    omega
  · rw [Nat.mul_comm (i / size) size]
    refine List.mem_iff_getElem.mpr ⟨i - size * (i / size), ?_, ?_⟩
    · rw [List.length_take, List.length_drop]
      omega
    · simp only [List.getElem_take, List.getElem_drop]
      congr 1
      omega

theorem onePair_distinct : Function.Injective fun i : ℕ => (⟨i + 0x9a⟩ : Address) :=
  fun _ _ h => Nat.add_right_cancel (congrArg Address.value h)

def onePair : Registry where
  pairs := fun i => ⟨i + 0x9a⟩
  distinct := onePair_distinct

def creationOf (address : Address) : CreationRecord := ⟨address, some 12, ⟨0xc0⟩, some ⟨0xfa⟩⟩

/-- Only the tokens' call of the first pass throws. -/
def revertsOnce (n : ℕ) : PassAnswers where
  totalPairs := .ok 1
  readCursor := none
  knownPoolAddresses := none
  pairAtIndex := fun i => .ok (onePair.pairs i)
  pairTokens := fun _ => if n = 0 then .error "execution reverted" else .ok ⟨⟨0x51⟩, ⟨0x52⟩⟩
  explorer := fun chunk => .ok (chunk.map creationOf)
  receipt := fun _ => .ok (some ⟨⟨0xbb⟩, [⟨⟨0xfa⟩, [PAIR_CREATED_TOPIC], 3⟩]⟩)
  protocols := fun _ => some ⟨1, "uniswap", "v2"⟩
  insertRow := fun _ => none
  writeCursor := fun _ => none

def noPools : PoolStore := ⟨∅, 0⟩

theorem byTens_positive : 0 < 10 := Nat.succ_pos 9

def byTens : Options := ⟨10, byTens_positive⟩

theorem truthful_revertsOnce (n : ℕ) : Truthful onePair 1 (revertsOnce n) where
  total _ h := (Except.ok.inj h).symm
  pairs _ _ h := (Except.ok.inj h).symm

theorem lookup_revertsOnce {n : ℕ} {addresses : List Address} {address : Address}
    (h : address ∈ addresses) : ∃ origin, lookup (revertsOnce n) addresses address = some origin ∧
      origin.factoryAddress = some ⟨0xfa⟩ := by
  have hresolve : ∀ a, resolve (revertsOnce n) (creationOf a) =
      some ⟨a, 12, ⟨0xc0⟩, ⟨0xbb⟩, 3, some ⟨0xfa⟩⟩ := fun _ => rfl
  have hall : ∀ p, p ∈ provenances (revertsOnce n) addresses ↔
      ∃ chunk ∈ slices ADDRESSES_PER_REQUEST addresses, ∃ a ∈ chunk,
        p = ⟨a, 12, ⟨0xc0⟩, ⟨0xbb⟩, 3, some ⟨0xfa⟩⟩ := by
    intro p
    simp only [provenances, revertsOnce, List.mem_flatMap, List.mem_filterMap, List.mem_map]
    constructor
    · rintro ⟨chunk, hchunk, _, ⟨a, ha, rfl⟩, hp⟩
      exact ⟨chunk, hchunk, a, ha, (Option.some.inj ((hresolve a).symm.trans hp)).symm⟩
    · rintro ⟨chunk, hchunk, a, ha, rfl⟩
      exact ⟨chunk, hchunk, _, ⟨a, ha, rfl⟩, hresolve a⟩
  obtain ⟨chunk, hchunk, ha⟩ := exists_mem_slices (Nat.succ_pos 9) h
  have hmem : (⟨address, 12, ⟨0xc0⟩, ⟨0xbb⟩, 3, some ⟨0xfa⟩⟩ : PairProvenance) ∈
      (provenances (revertsOnce n) addresses).filter (·.address = address) :=
    List.mem_filter.mpr ⟨(hall _).mpr ⟨chunk, hchunk, address, ha, rfl⟩, decide_eq_true rfl⟩
  cases hlast : ((provenances (revertsOnce n) addresses).filter (·.address = address)).getLast? with
  | none =>
    rw [List.getLast?_eq_none_iff.mp hlast] at hmem
    cases hmem
  | some origin =>
    refine ⟨origin, hlast, ?_⟩
    obtain ⟨_, _, a, _, rfl⟩ := (hall origin).mp (List.mem_filter.mp (List.mem_of_getLast? hlast)).1
    rfl

theorem settles_revertsOnce : Settles onePair revertsOnce fun _ => 1 where
  begins := ⟨0, fun _ _ => ⟨⟨1, rfl⟩, rfl, rfl⟩⟩
  writes := ⟨0, fun _ _ _ => rfl⟩
  pairs i := by
    refine ⟨1, fun n hn _ => ⟨rfl, ⟨⟨⟨0x51⟩, ⟨0x52⟩⟩, if_neg (by omega)⟩, fun addresses h => ?_, rfl⟩⟩
    obtain ⟨origin, horigin, hfactory⟩ := lookup_revertsOnce (n := n) h
    exact ⟨origin, ⟨0xfa⟩, horigin, hfactory, rfl⟩

/-- The first pass goes past the pair, and no pass returns to it. -/
theorem stores_revertsOnce (n : ℕ) :
    stores byTens revertsOnce noPools (n + 1) = ⟨∅, 1⟩ := by
  induction n with
  | zero => rfl
  | succ n ih =>
    rw [stores, ih]
    rfl

/-- One pair, whose tokens could not be read in the first pass. -/
theorem unreadOnce_never_recorded :
    (Monotone fun _ : ℕ => 1) ∧ (∀ n, Truthful onePair 1 (revertsOnce n)) ∧
      Settles onePair revertsOnce (fun _ => 1) ∧ noPools.cursor = 0 ∧
      ¬ EveryPairRecorded byTens onePair revertsOnce (fun _ => 1) noPools := by
  refine ⟨monotone_const, truthful_revertsOnce, settles_revertsOnce, rfl, fun h => ?_⟩
  obtain ⟨M, hM⟩ := h 0
  obtain ⟨row, ⟨hrow, -⟩, -⟩ := hM (M + 1) (Nat.le_succ M) 0 Nat.one_pos
  rw [stores_revertsOnce] at hrow
  cases hrow

theorem everyPairRecorded_revertsOnce :
    EveryPairRecorded byTens onePair revertsOnce (fun _ => 1) noPools ↔
      ∀ n, SkipsNothing byTens onePair (revertsOnce n) 1 (stores byTens revertsOnce noPools n) :=
  everyPairRecorded_iff byTens onePair revertsOnce (fun _ => 1) noPools monotone_const
    truthful_revertsOnce settles_revertsOnce rfl

end PoolBackfill

end HoodSentry
