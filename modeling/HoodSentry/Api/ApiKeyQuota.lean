import HoodSentry.Api.Model.ApiKeys
/-!
# API key quotas

The count of a bucket is the number of calls whose transaction counted
there and committed. A transaction that has written a count holds the
bucket, so what it read is still the committed count when it commits, and
a count grows by one and within the quota; one that finds its second
bucket full takes the first count back.
-/

namespace HoodSentry

/-- The buckets of requests: a key, a period and the start of it. -/
abbrev UsageBucket := ℕ × UsagePeriod × ℕ

/-! ## What is counted -/

/-- The key and the moment of a call whose transaction committed. -/
def AuthenticatePhase.committed : AuthenticatePhase → Option (AuthorizedKey × ℕ)
  | .returned key now _ | .lost key now => some (key, now)
  | _ => none

/-- The call's transaction committed a count in the bucket. -/
def AuthenticateCall.countsIn (call : AuthenticateCall) (bucket : UsageBucket) : Bool :=
  call.phase.committed.any fun (key, now) => key.bucket bucket.2.1 now = bucket

/-- **The call returned a principal**, and the clock it read falls in the
bucket. -/
def AuthenticateCall.returnedIn (call : AuthenticateCall) (bucket : UsageBucket) : Bool :=
  match call.phase with
  | .returned key now _ => key.bucket bucket.2.1 now = bucket
  | _ => false

/-- The committed count of a bucket. -/
def ApiKeyDb.requestCount (db : ApiKeyDb) (bucket : UsageBucket) : ℕ :=
  ((db.usage.find bucket).map (·.requestCount)).getD 0

def ApiKeyRow.quota (row : ApiKeyRow) : UsagePeriod → Option ℕ
  | .minute => row.quotaPerMinute
  | .day => row.quotaPerDay

/-- **The quotas hold**: in every clock period the calls that returned a
principal are no more than a key's quota for it; a count is that of the
committed calls; and a step of a call whose transaction has not committed
leaves the counts as they were. -/
structure QuotasHold (hashApiKeyToken : ApiKeyToken → Hash) (w : AuthenticateWorld) : Prop where
  within : ∀ row ∈ w.db.keys, ∀ period quota, row.quota period = some quota → 1 ≤ quota →
    ∀ start, w.calls.rows.countP (·.returnedIn (row.id, period, start)) ≤ quota
  counted : ∀ bucket, w.db.requestCount bucket = w.calls.rows.countP (·.countsIn bucket)
  rejected : ∀ l w' id, w.step hashApiKeyToken l = some w' →
    AuthenticateWorld.callOf l = some id →
    (∀ call ∈ w'.calls, call.id = id → call.phase.committed = none) →
    w'.db.usage = w.db.usage

/-! ## The invariant -/

/-- The key a call is authorized with. -/
def AuthenticatePhase.key : AuthenticatePhase → Option AuthorizedKey
  | .minute key _ | .day key _ _ | .touch key _ _ _ | .commit key _ _ _ | .returned key _ _
  | .lost key _ => some key
  | .select | .threw _ => none

/-- The key is stored, with the quotas it was read with. -/
def ApiKeyDb.Knows (db : ApiKeyDb) (key : AuthorizedKey) : Prop :=
  ∃ row ∈ db.keys, row.id = key.row.id ∧ ∀ period, row.quota period = some (key.quota period)

/-- **What holds of a call**: its key is stored, and each count it has
written is one more than the committed one and within the quota. -/
structure CallInvariant (db : ApiKeyDb) (phase : AuthenticatePhase) : Prop where
  known : ∀ key ∈ phase.key, db.Knows key
  next : ∀ row ∈ phase.written, row.requestCount = db.requestCount row.key + 1
  within : ∀ key ∈ phase.key, ∀ row ∈ phase.written, row.apiKeyId = key.row.id ∧
    row.requestCount ≤ max 1 (key.quota row.periodKind)

/-- Two calls hold no bucket in common. -/
def AuthenticatePhase.Disjoint (phase phase' : AuthenticatePhase) : Prop :=
  ∀ row ∈ phase.written, ∀ row' ∈ phase'.written, row.key ≠ row'.key

/-- **The invariant.** -/
structure QuotaInvariant (w : AuthenticateWorld) : Prop where
  calls : ∀ call ∈ w.calls, CallInvariant w.db call.phase
  disjoint : ∀ call ∈ w.calls, ∀ call' ∈ w.calls, call.id ≠ call'.id →
    call.phase.Disjoint call'.phase
  counted : ∀ bucket, w.db.requestCount bucket = w.calls.rows.countP (·.countsIn bucket)
  within : ∀ usage ∈ w.db.usage, ∃ row ∈ w.db.keys, row.id = usage.apiKeyId ∧
    ∀ quota, row.quota usage.periodKind = some quota → usage.requestCount ≤ max 1 quota

/-! ## The keys stored -/

section Keys

variable {db db' : ApiKeyDb} {row : ApiKeyRow}

/-- Every key is still stored, with its quotas. -/
def KeepsKeys (db db' : ApiKeyDb) : Prop :=
  ∀ row ∈ db.keys, ∃ row' ∈ db'.keys, row'.id = row.id ∧ ∀ period, row'.quota period = row.quota period

/-- An update of what is no quota keeps them. -/
theorem keepsKeys_updateWhere {p : ApiKeyRow → Bool} {f : ApiKeyRow → ApiKeyRow}
    (hf : ∀ row, (f row).id = row.id) (hquota : ∀ row period, (f row).quota period = row.quota period)
    (h : db'.keys = db.keys.updateWhere p f hf) : KeepsKeys db db' := by
  intro row hrow
  refine ⟨if p row then f row else row, h ▸ Table.ite_mem_updateWhere hrow hf, ?_, fun period => ?_⟩
  · split
    · exact hf row
    · rfl
  · split
    · exact hquota row period
    · rfl

theorem keepsKeys_insertKey (h : db.insertKey row = some db') : KeepsKeys db db' := by
  simp only [ApiKeyDb.insertKey, Option.ite_none_left_eq_some] at h
  obtain rfl := Option.some.inj h.2
  exact fun row hrow => ⟨row, Table.mem_insertNew_of_mem hrow, rfl, fun _ => rfl⟩

theorem KeepsKeys.knows (h : KeepsKeys db db') {key : AuthorizedKey} (hk : db.Knows key) :
    db'.Knows key := by
  obtain ⟨row, hrow, hid, hquota⟩ := hk
  obtain ⟨row', hrow', hid', hquota'⟩ := h row hrow
  exact ⟨row', hrow', hid'.trans hid, fun period => (hquota' period).trans (hquota period)⟩

/-- A request is authorized with a stored key. -/
theorem knows_of_authorizeKey {hashApiKeyToken : ApiKeyToken → Hash} {token : ApiKeyToken}
    {requiredScope : Option ApiKeyScope} {key : AuthorizedKey}
    (h : authorizeKey hashApiKeyToken db token requiredScope = .ok key) : db.Knows key := by
  unfold authorizeKey at h
  split at h
  · exact absurd h (by simp)
  · split at h
    · exact absurd h (by simp)
    · rename_i row hfind
      split at h
      · exact absurd h (by simp)
      · obtain ⟨scopes, -, h⟩ := bind_eq_ok.mp h
        split at h
        · exact absurd h (by simp)
        · split at h
          · rename_i hminute hday
            obtain rfl := Except.ok.inj h
            refine ⟨row, List.mem_of_find?_eq_some hfind, rfl, fun period => ?_⟩
            cases period with
            | minute => exact hminute
            | day => exact hday
          · exact absurd h (by simp)

end Keys

/-! ## Statements -/

namespace AuthenticateWorld

variable {hashApiKeyToken : ApiKeyToken → Hash} {w w' : AuthenticateWorld}
  {call other : AuthenticateCall} {phase phase' : AuthenticatePhase} {key : AuthorizedKey}
  {period : UsagePeriod} {now count : ℕ} {l : AuthenticateLabel}

/-- **A count that is returned** is the next one, and within the quota. -/
theorem countRequest_eq_some {db : ApiKeyDb} {bucket : UsageBucket} {quota : ℕ}
    (h : countRequest db.usage bucket quota = some count) :
    count = db.requestCount bucket + 1 ∧ count ≤ max 1 quota := by
  unfold countRequest at h
  unfold ApiKeyDb.requestCount
  split at h
  · rename_i hfind
    obtain rfl := Option.some.inj h
    rw [hfind]
    exact ⟨rfl, Nat.le_max_left 1 quota⟩
  · rename_i row hfind
    split at h
    · obtain rfl := Option.some.inj h
      rw [hfind]
      refine ⟨rfl, ?_⟩
      omega
    · exact absurd h (by simp)

/-- A call that has written nothing holds no bucket. -/
theorem disjoint_of_written_eq_nil (h : phase.written = []) : phase.Disjoint phase' := by
  intro row hrow
  rw [h] at hrow
  exact absurd hrow List.not_mem_nil

theorem disjoint_symm (h : phase.Disjoint phase') : phase'.Disjoint phase :=
  fun row hrow row' hrow' => (h row' hrow' row hrow).symm

/-- A call that has written nothing and has no key, or a stored one. -/
theorem callInvariant_of_written_eq_nil {db : ApiKeyDb} (h : phase.written = [])
    (hkey : ∀ key ∈ phase.key, db.Knows key) : CallInvariant db phase where
  known := hkey
  next _ hrow := absurd (h ▸ hrow) List.not_mem_nil
  within _ _ _ hrow := absurd (h ▸ hrow) List.not_mem_nil

/-- **One more count written.** -/
theorem callInvariant_count {db : ApiKeyDb} (period : UsagePeriod) (h : CallInvariant db phase)
    (hkey : phase.key = some key) (hkey' : phase'.key = some key)
    (hwritten : phase'.written =
      phase.written ++ [⟨key.row.id, period, period.bucketStart now, count⟩])
    (hcount : countRequest db.usage (key.bucket period now) (key.quota period) = some count) :
    CallInvariant db phase' := by
  obtain ⟨hnext, hle⟩ := countRequest_eq_some hcount
  refine ⟨fun k hk => h.known k (by rwa [hkey, ← hkey']), fun row hrow => ?_,
    fun k hk row hrow => ?_⟩
  · rw [hwritten] at hrow
    rcases List.mem_append.mp hrow with hrow | hrow
    · exact h.next row hrow
    · obtain rfl := List.mem_singleton.mp hrow
      exact hnext
  · obtain rfl := Option.some.inj (hkey'.symm.trans hk)
    rw [hwritten] at hrow
    rcases List.mem_append.mp hrow with hrow | hrow
    · exact h.within key hkey row hrow
    · obtain rfl := List.mem_singleton.mp hrow
      exact ⟨rfl, hle⟩

/-- The bucket counted in was held by no other call. -/
theorem disjoint_count (hwaits : w.countWaits call (key.bucket period now) = false)
    (hdisjoint : ∀ other ∈ w.calls, other.id ≠ call.id → call.phase.Disjoint other.phase)
    (hwritten : phase'.written =
      call.phase.written ++ [⟨key.row.id, period, period.bucketStart now, count⟩]) :
    ∀ other ∈ w.calls, other.id ≠ call.id → phase'.Disjoint other.phase := by
  intro other hother hne r hr r' hr'
  rw [hwritten] at hr
  rcases List.mem_append.mp hr with hr | hr
  · exact hdisjoint other hother hne r hr r' hr'
  · obtain rfl := List.mem_singleton.mp hr
    intro hkey
    have hfree := List.any_eq_false.mp hwaits other hother
    refine hfree ?_
    rw [Bool.and_eq_true]
    refine ⟨decide_eq_true hne, List.any_eq_true.mpr ⟨r', hr', decide_eq_true hkey.symm⟩⟩

/-- **What a statement of a call does**: it moves the call on, with counts
it may write; or it commits. -/
theorem runStatement_cases (hw : QuotaInvariant w) (hcall : call ∈ w.calls)
    (h : w.runStatement hashApiKeyToken call l = some w') :
    (∃ phase, w' = w.move call phase ∧ call.phase.committed = none ∧ phase.committed = none ∧
      CallInvariant w.db phase ∧
      ∀ other ∈ w.calls, other.id ≠ call.id → phase.Disjoint other.phase) ∨
    ∃ key now minuteCount dayCount phase, call.phase = .commit key now minuteCount dayCount ∧
      phase.committed = some (key, now) ∧ phase.written = [] ∧ phase.key = some key ∧
      w' = { w.move call phase with db := w.commitDb call.phase key.row.id now } := by
  have hinv := hw.calls call hcall
  have hdisjoint : ∀ other ∈ w.calls, other.id ≠ call.id → call.phase.Disjoint other.phase :=
    fun other hother hne => hw.disjoint call hcall other hother (Ne.symm hne)
  obtain ⟨id, token, requiredScope, phase⟩ := call
  dsimp only at hinv hdisjoint
  have hthrew : ∀ error, w' = w.move ⟨id, token, requiredScope, phase⟩ (.threw error) →
      phase.committed = none → ∃ next, w' = w.move ⟨id, token, requiredScope, phase⟩ next ∧
        phase.committed = none ∧ next.committed = none ∧ CallInvariant w.db next ∧
        ∀ other ∈ w.calls, other.id ≠ id → next.Disjoint other.phase := by
    intro error hw' hopen
    exact ⟨_, hw', hopen, rfl,
      callInvariant_of_written_eq_nil rfl fun k hk => absurd hk (Option.not_mem_none k),
      fun _ _ _ => disjoint_of_written_eq_nil rfl⟩
  cases l with
  | select id' now =>
    cases phase with
    | select =>
      simp only [runStatement] at h
      split at h
      · exact Or.inl (hthrew _ (Option.some.inj h).symm rfl)
      · rename_i key hkey
        refine Or.inl ⟨_, (Option.some.inj h).symm, rfl, rfl,
          callInvariant_of_written_eq_nil rfl fun k hk => ?_,
          fun _ _ _ => disjoint_of_written_eq_nil rfl⟩
        obtain rfl := Option.some.inj hk
        exact knows_of_authorizeKey hkey
    | _ => exact absurd h (by simp [runStatement])
  | minute id' =>
    cases phase with
    | minute key now =>
      simp only [runStatement, Option.ite_none_left_eq_some] at h
      obtain ⟨hwaits, h⟩ := h
      split at h
      · exact Or.inl (hthrew _ (Option.some.inj h).symm rfl)
      · rename_i count hcount
        exact Or.inl ⟨_, (Option.some.inj h).symm, rfl, rfl,
          callInvariant_count .minute hinv rfl rfl rfl hcount,
          disjoint_count (Bool.eq_false_iff.mpr hwaits) hdisjoint rfl⟩
    | _ => exact absurd h (by simp [runStatement])
  | day id' =>
    cases phase with
    | day key now minuteCount =>
      simp only [runStatement, Option.ite_none_left_eq_some] at h
      obtain ⟨hwaits, h⟩ := h
      split at h
      · exact Or.inl (hthrew _ (Option.some.inj h).symm rfl)
      · rename_i count hcount
        exact Or.inl ⟨_, (Option.some.inj h).symm, rfl, rfl,
          callInvariant_count .day hinv rfl rfl rfl hcount,
          disjoint_count (Bool.eq_false_iff.mpr hwaits) hdisjoint rfl⟩
    | _ => exact absurd h (by simp [runStatement])
  | touch id' =>
    cases phase with
    | touch key now minuteCount dayCount =>
      simp only [runStatement, Option.ite_none_left_eq_some] at h
      obtain ⟨-, h⟩ := h
      exact Or.inl ⟨_, (Option.some.inj h).symm, rfl, rfl,
        ⟨hinv.known, hinv.next, hinv.within⟩, hdisjoint⟩
    | _ => exact absurd h (by simp [runStatement])
  | commit id' acknowledged =>
    cases phase with
    | commit key now minuteCount dayCount =>
      refine Or.inr ⟨key, now, minuteCount, dayCount, _, rfl, ?_, ?_, ?_, (Option.some.inj h).symm⟩
      all_goals cases acknowledged <;> rfl
    | _ => exact absurd h (by simp [runStatement])
  | fail id' message =>
    cases phase with
    | returned => exact absurd h (by simp [runStatement])
    | lost => exact absurd h (by simp [runStatement])
    | threw => exact absurd h (by simp [runStatement])
    | _ => exact Or.inl (hthrew _ (Option.some.inj h).symm rfl)
  | _ => exact absurd h (by simp [runStatement])

/-! ## The invariant is kept -/

theorem quotaInvariant_of_init (hw : (authenticateMachine hashApiKeyToken).Init w) :
    QuotaInvariant w := by
  obtain ⟨husage, hcalls⟩ := hw
  refine ⟨fun c hc => absurd (hcalls ▸ hc) (Table.notMem_empty c),
    fun c hc => absurd (hcalls ▸ hc) (Table.notMem_empty c), fun bucket => ?_,
    fun row hrow => absurd (husage ▸ hrow) (Table.notMem_empty row)⟩
  rw [ApiKeyDb.requestCount, husage, hcalls]
  rfl

/-- Where a call stands says what it counts. -/
theorem countsIn_of_committed_eq_none {bucket : UsageBucket} (h : call.phase.committed = none) :
    call.countsIn bucket = false := by
  rw [AuthenticateCall.countsIn, h]
  rfl

/-- The counts read the same where no count is written. -/
theorem requestCount_congr {db db' : ApiKeyDb} (h : db'.usage = db.usage) (bucket : UsageBucket) :
    db'.requestCount bucket = db.requestCount bucket := by
  rw [ApiKeyDb.requestCount, h, ApiKeyDb.requestCount]

theorem callInvariant_congr {db db' : ApiKeyDb} (hkeys : KeepsKeys db db')
    (h : CallInvariant db phase)
    (husage : ∀ row ∈ phase.written, db'.requestCount row.key = db.requestCount row.key) :
    CallInvariant db' phase where
  known key hk := hkeys.knows (h.known key hk)
  next row hrow := by rw [husage row hrow, h.next row hrow]
  within := h.within

/-- **A call moved on**, with nothing committed. -/
theorem quotaInvariant_move (hw : QuotaInvariant w) (hcall : call ∈ w.calls)
    (hopen : call.phase.committed = none) (hstill : phase.committed = none)
    (hinv : CallInvariant w.db phase)
    (hdisjoint : ∀ other ∈ w.calls, other.id ≠ call.id → phase.Disjoint other.phase) :
    QuotaInvariant (w.move call phase) := by
  refine ⟨fun c hc => ?_, fun c hc c' hc' hne => ?_, fun bucket => ?_, hw.within⟩
  · rcases Table.mem_put.mp hc with ⟨hc, -⟩ | rfl
    · exact hw.calls c hc
    · exact hinv
  · rcases Table.mem_put.mp hc with ⟨hc, hcne⟩ | rfl
    · rcases Table.mem_put.mp hc' with ⟨hc', -⟩ | rfl
      · exact hw.disjoint c hc c' hc' hne
      · exact disjoint_symm (hdisjoint c hc hcne)
    · rcases Table.mem_put.mp hc' with ⟨hc', hcne⟩ | rfl
      · exact hdisjoint c' hc' hcne
      · exact absurd rfl hne
  · have hcount := Table.countP_put (t := w.calls) (r := { call with phase := phase })
      (p := fun c => c.countsIn bucket) hcall rfl (countsIn_of_committed_eq_none hopen)
    have hnew : ({ call with phase := phase } : AuthenticateCall).countsIn bucket = false :=
      countsIn_of_committed_eq_none hstill
    rw [hnew] at hcount
    exact (hw.counted bucket).trans hcount.symm

/-- Other keys stored, and the same counts. -/
theorem quotaInvariant_keys {db : ApiKeyDb} (hw : QuotaInvariant w) (hkeys : KeepsKeys w.db db)
    (husage : db.usage = w.db.usage) : QuotaInvariant { w with db := db } := by
  refine ⟨fun c hc => ?_, hw.disjoint, fun bucket => ?_, fun row hrow => ?_⟩
  · exact callInvariant_congr hkeys (hw.calls c hc) fun row _ => requestCount_congr husage row.key
  · exact (requestCount_congr husage bucket).trans (hw.counted bucket)
  · have hrow' : row ∈ w.db.usage := husage ▸ hrow
    obtain ⟨stored, hstored, hid, hle⟩ := hw.within row hrow'
    obtain ⟨stored', hstored', hid', hquota⟩ := hkeys stored hstored
    exact ⟨stored', hstored', hid'.trans hid, fun quota hq => hle quota (hquota _ ▸ hq)⟩

/-! ## Commits -/

/-- The count of a bucket after an upsert. -/
theorem find_upsertUsage {usage : Table ApiKeyUsageRow.key} {row : ApiKeyUsageRow}
    {bucket : UsageBucket} :
    (((upsertUsage usage row).find bucket).map (·.requestCount)).getD 0 =
      if row.key = bucket then row.requestCount
      else ((usage.find bucket).map (·.requestCount)).getD 0 := by
  have hfind : (upsertUsage usage row).find bucket =
      if row.key = bucket then
        some ((usage.find bucket).elim row fun old => { old with requestCount := row.requestCount })
      else usage.find bucket := Table.find_upsert
  rw [hfind]
  split
  · cases usage.find bucket <;> rfl
  · rfl

/-- **The counts a commit leaves**: what it wrote, and the others. -/
theorem requestCount_commitDb (keyId now : ℕ) {bucket : UsageBucket}
    (h : (phase.written.map ApiKeyUsageRow.key).Nodup) :
    (∀ row ∈ phase.written, row.key = bucket →
        (w.commitDb phase keyId now).requestCount bucket = row.requestCount) ∧
      ((∀ row ∈ phase.written, row.key ≠ bucket) →
        (w.commitDb phase keyId now).requestCount bucket = w.db.requestCount bucket) := by
  unfold ApiKeyDb.requestCount commitDb
  dsimp only
  generalize w.db.usage = usage
  generalize phase.written = rows at h
  induction rows generalizing usage with
  | nil => exact ⟨fun row hrow => absurd hrow List.not_mem_nil, fun _ => rfl⟩
  | cons row rows ih =>
    rw [List.map_cons, List.nodup_cons] at h
    obtain ⟨hmem, hother⟩ := ih (upsertUsage usage row) h.2
    refine ⟨fun r hr hk => ?_, fun hne => ?_⟩
    · rcases List.mem_cons.mp hr with rfl | hr
      · have hrest : ∀ r' ∈ rows, r'.key ≠ bucket := by
          intro r' hr' hk'
          exact h.1 (hk.trans hk'.symm ▸ List.mem_map_of_mem hr')
        rw [List.foldl_cons, hother hrest, find_upsertUsage, if_pos hk]
      · exact hmem r hr hk
    · rw [List.foldl_cons, hother fun r hr => hne r (List.mem_cons_of_mem _ hr), find_upsertUsage,
        if_neg (hne row List.mem_cons_self)]

/-- The buckets with a count after a commit. -/
theorem mem_keys_commitDb {keyId : ℕ} {bucket : UsageBucket}
    (h : bucket ∈ (w.commitDb phase keyId now).usage.keys) :
    bucket ∈ w.db.usage.keys ∨ ∃ row ∈ phase.written, row.key = bucket := by
  unfold commitDb at h
  dsimp only at h
  generalize w.db.usage = usage at h ⊢
  generalize phase.written = rows at h ⊢
  induction rows generalizing usage with
  | nil => exact Or.inl h
  | cons row rows ih =>
    rcases ih (upsertUsage usage row) h with h | ⟨r, hr, hk⟩
    · rcases Table.mem_keys_upsert.mp h with h | rfl
      · exact Or.inl h
      · exact Or.inr ⟨row, List.mem_cons_self, rfl⟩
    · exact Or.inr ⟨r, List.mem_cons_of_mem _ hr, hk⟩

/-- A stored row has the count of its bucket. -/
theorem requestCount_of_mem {db : ApiKeyDb} {row : ApiKeyUsageRow} (h : row ∈ db.usage) :
    db.requestCount row.key = row.requestCount := by
  rw [ApiKeyDb.requestCount, Table.find_of_mem h]
  rfl

/-- The two buckets a transaction has counted in. -/
theorem keys_written {minuteCount dayCount : ℕ} :
    (AuthenticatePhase.commit key now minuteCount dayCount).written.map ApiKeyUsageRow.key =
      [key.bucket .minute now, key.bucket .day now] := rfl

theorem nodup_written {minuteCount dayCount : ℕ} :
    ((AuthenticatePhase.commit key now minuteCount dayCount).written.map
      ApiKeyUsageRow.key).Nodup := by
  rw [keys_written]
  simp [AuthorizedKey.bucket]

/-- A committed call counts in the buckets it has written. -/
theorem countsIn_iff (call : AuthenticateCall) (bucket : UsageBucket) (minuteCount dayCount : ℕ)
    (h : phase.committed = some (key, now)) :
    ({ call with phase := phase } : AuthenticateCall).countsIn bucket = true ↔
      ∃ row ∈ (AuthenticatePhase.commit key now minuteCount dayCount).written,
        row.key = bucket := by
  have hkeys : (∃ row ∈ (AuthenticatePhase.commit key now minuteCount dayCount).written,
      row.key = bucket) ↔ bucket ∈ [key.bucket .minute now, key.bucket .day now] := by
    rw [← keys_written, List.mem_map]
  have hcounts : ({ call with phase := phase } : AuthenticateCall).countsIn bucket =
      decide (key.bucket bucket.2.1 now = bucket) := by
    rw [AuthenticateCall.countsIn, h]
    rfl
  rw [hkeys, hcounts, decide_eq_true_iff]
  obtain ⟨id, period, start⟩ := bucket
  cases period with
  | minute => simp [AuthorizedKey.bucket, eq_comm]
  | day => simp [AuthorizedKey.bucket, eq_comm]

/-- **A commit keeps the invariant**: its two counts grow by the one call
that now counts in them. -/
theorem quotaInvariant_commit (hw : QuotaInvariant w) (hcall : call ∈ w.calls)
    {minuteCount dayCount : ℕ} (hphase : call.phase = .commit key now minuteCount dayCount)
    (hcommitted : phase.committed = some (key, now)) (hwritten : phase.written = [])
    (hkey : phase.key = some key) :
    QuotaInvariant { w.move call phase with db := w.commitDb call.phase key.row.id now } := by
  have hinv := hw.calls call hcall
  have hkeys : KeepsKeys w.db (w.commitDb call.phase key.row.id now) :=
    keepsKeys_updateWhere (f := fun row => { row with lastUsedAt := some now }) (fun _ => rfl)
      (fun row period => by cases period <;> rfl) rfl
  have hnodup : (call.phase.written.map ApiKeyUsageRow.key).Nodup := hphase ▸ nodup_written
  -- the buckets written are held by this call alone
  have hothers : ∀ c ∈ w.calls, c.id ≠ call.id → ∀ row ∈ c.phase.written,
      (w.commitDb call.phase key.row.id now).requestCount row.key = w.db.requestCount row.key := by
    intro c hc hne row hrow
    refine (requestCount_commitDb _ _ hnodup).2 fun row' hrow' => ?_
    exact hw.disjoint call hcall c hc (Ne.symm hne) row' hrow' row hrow
  have hnil : ∀ row, row ∉ phase.written := fun row hrow => absurd (hwritten ▸ hrow) List.not_mem_nil
  refine ⟨fun c hc => ?_, fun c hc c' hc' hne => ?_, fun bucket => ?_, fun row hrow => ?_⟩
  · rcases Table.mem_put.mp hc with ⟨hc, hne⟩ | rfl
    · exact callInvariant_congr hkeys (hw.calls c hc) (hothers c hc hne)
    · refine callInvariant_of_written_eq_nil hwritten fun k hk => ?_
      obtain rfl := Option.some.inj (hkey.symm.trans hk)
      exact hkeys.knows (hinv.known key (by rw [hphase]; rfl))
  · rcases Table.mem_put.mp hc with ⟨hc, -⟩ | rfl
    · rcases Table.mem_put.mp hc' with ⟨hc', -⟩ | rfl
      · exact hw.disjoint c hc c' hc' hne
      · exact disjoint_symm (disjoint_of_written_eq_nil hwritten)
    · exact disjoint_of_written_eq_nil hwritten
  · have hopen : call.countsIn bucket = false :=
      countsIn_of_committed_eq_none (by rw [hphase]; rfl)
    have hcount := Table.countP_put (t := w.calls) (r := { call with phase := phase })
      (p := fun c => c.countsIn bucket) hcall rfl hopen
    have hiff := countsIn_iff call bucket minuteCount dayCount hcommitted
    rw [← hphase] at hiff
    refine Eq.trans ?_ hcount.symm
    rw [← hw.counted bucket]
    by_cases hb : ∃ row ∈ call.phase.written, row.key = bucket
    · obtain ⟨row, hrow, rfl⟩ := hb
      rw [(requestCount_commitDb _ _ hnodup).1 row hrow rfl, hinv.next row hrow,
        if_pos (hiff.mpr ⟨row, hrow, rfl⟩)]
    · have hfree : ∀ row ∈ call.phase.written, row.key ≠ bucket := fun row hrow hk =>
        hb ⟨row, hrow, hk⟩
      rw [(requestCount_commitDb _ _ hnodup).2 hfree, if_neg fun h => hb (hiff.mp h)]
      rfl
  · have hcountRow := requestCount_of_mem hrow
    by_cases hb : ∃ r ∈ call.phase.written, r.key = row.key
    · obtain ⟨r, hr, hrk⟩ := hb
      obtain ⟨hid, hle⟩ := hinv.within key (by rw [hphase]; rfl) r hr
      obtain ⟨stored, hstored, hsid, hquota⟩ :=
        hkeys.knows (hinv.known key (by rw [hphase]; rfl))
      have hk := hrk
      simp only [ApiKeyUsageRow.key, Prod.mk.injEq] at hk
      refine ⟨stored, hstored, hsid.trans (hid.symm.trans hk.1), fun quota hq => ?_⟩
      obtain rfl := Option.some.inj ((hquota _).symm.trans hq)
      rw [← hcountRow, (requestCount_commitDb _ _ hnodup).1 r hr hrk, ← hk.2.1]
      exact hle
    · have hfree : ∀ r ∈ call.phase.written, r.key ≠ row.key := fun r hr hk => hb ⟨r, hr, hk⟩
      have hkey' : row.key ∈ w.db.usage.keys := by
        rcases mem_keys_commitDb (Table.key_mem_keys hrow) with h | h
        · exact h
        · exact absurd h hb
      obtain ⟨old, hold, hok⟩ := Table.mem_keys.mp hkey'
      have hcountOld := requestCount_of_mem hold
      rw [hok, ← (requestCount_commitDb key.row.id now hnodup).2 hfree] at hcountOld
      obtain ⟨stored, hstored, hid, hle⟩ := hw.within old hold
      obtain ⟨stored', hstored', hid', hquota⟩ := hkeys stored hstored
      simp only [ApiKeyUsageRow.key, Prod.mk.injEq] at hok
      refine ⟨stored', hstored', hid'.trans (hid.trans hok.1), fun quota hq => ?_⟩
      have hcount : row.requestCount = old.requestCount := hcountRow.symm.trans hcountOld
      rw [hcount]
      refine hle quota ?_
      rw [hok.2.1, ← hquota]
      exact hq

/-! ## Runs -/

/-- **The step lemma.** -/
theorem quotaInvariant_step (hw : QuotaInvariant w) (hs : w.step hashApiKeyToken l = some w') :
    QuotaInvariant w' := by
  have hstatement : ∀ id l', (w.calls.find id).bind (w.runStatement hashApiKeyToken · l') = some w' →
      QuotaInvariant w' := by
    intro id l' h
    obtain ⟨call, hfind, hrun⟩ := Option.bind_eq_some_iff.mp h
    obtain ⟨hcall, -⟩ := Table.find_eq_some.mp hfind
    rcases runStatement_cases hw hcall hrun with ⟨phase, rfl, hopen, hstill, hinv, hdisjoint⟩ |
      ⟨key, now, minuteCount, dayCount, phase, hphase, hcommitted, hwritten, hkey, rfl⟩
    · exact quotaInvariant_move hw hcall hopen hstill hinv hdisjoint
    · exact quotaInvariant_commit hw hcall hphase hcommitted hwritten hkey
  cases l with
  | call id token requiredScope =>
    simp only [step, Option.ite_none_left_eq_some] at hs
    obtain ⟨hid, hs⟩ := hs
    obtain rfl := Option.some.inj hs
    refine ⟨fun c hc => ?_, fun c hc c' hc' hne => ?_, fun bucket => ?_, hw.within⟩
    · rcases Table.mem_insertNew.mp hc with hc | ⟨rfl, -⟩
      · exact hw.calls c hc
      · exact callInvariant_of_written_eq_nil rfl fun k hk => absurd hk (Option.not_mem_none k)
    · rcases Table.mem_insertNew.mp hc with hc | ⟨rfl, -⟩
      · rcases Table.mem_insertNew.mp hc' with hc' | ⟨rfl, -⟩
        · exact hw.disjoint c hc c' hc' hne
        · exact disjoint_symm (disjoint_of_written_eq_nil rfl)
      · exact disjoint_of_written_eq_nil rfl
    · have hcounted := hw.counted bucket
      dsimp only
      rw [Table.rows_insertNew hid, List.countP_append, ← hcounted]
      rfl
  | issue row =>
    obtain ⟨db, hdb, rfl⟩ := Option.map_eq_some_iff.mp hs
    refine quotaInvariant_keys hw (keepsKeys_insertKey hdb) ?_
    simp only [ApiKeyDb.insertKey, Option.ite_none_left_eq_some] at hdb
    rw [← Option.some.inj hdb.2]
  | revoke userId id now =>
    simp only [step, Option.ite_none_left_eq_some] at hs
    obtain rfl := Option.some.inj hs.2
    exact quotaInvariant_keys hw (keepsKeys_updateWhere
      (f := fun row => { row with revokedAt := some now }) (fun _ => rfl)
      (fun row period => by cases period <;> rfl) rfl) rfl
  | select id now => exact hstatement id _ hs
  | minute id => exact hstatement id _ hs
  | day id => exact hstatement id _ hs
  | touch id => exact hstatement id _ hs
  | commit id acknowledged => exact hstatement id _ hs
  | fail id message => exact hstatement id _ hs

/-- **The run lemma.** -/
theorem quotaInvariant_of_reachable (h : (authenticateMachine hashApiKeyToken).Reachable w) :
    QuotaInvariant w :=
  h.invariant (fun _ hs => quotaInvariant_of_init hs) fun _ _ _ hI _ hstep =>
    quotaInvariant_step hI hstep

/-- A call that returned a principal is counted. -/
theorem countsIn_of_returnedIn {bucket : UsageBucket} (h : call.returnedIn bucket = true) :
    call.countsIn bucket = true := by
  unfold AuthenticateCall.returnedIn at h
  split at h
  · rename_i key now principal hphase
    rw [AuthenticateCall.countsIn, hphase]
    exact h
  · exact absurd h (by simp)

/-- **A count is within its key's quota.** -/
theorem requestCount_le (hw : QuotaInvariant w) {row : ApiKeyRow} (hrow : row ∈ w.db.keys)
    (start : ℕ) {quota : ℕ} (hquota : row.quota period = some quota) :
    w.db.requestCount (row.id, period, start) ≤ max 1 quota := by
  cases hfind : w.db.usage.find (row.id, period, start) with
  | none =>
    rw [ApiKeyDb.requestCount, hfind]
    exact Nat.zero_le _
  | some usage =>
    obtain ⟨husage, hkey⟩ := Table.find_eq_some.mp hfind
    obtain ⟨stored, hstored, hid, hle⟩ := hw.within usage husage
    simp only [ApiKeyUsageRow.key, Prod.mk.injEq] at hkey
    have hsame : stored = row := w.db.keys.eq_of_key_eq hstored hrow (hid.trans hkey.1)
    rw [ApiKeyDb.requestCount, hfind]
    refine hle quota ?_
    rw [hsame, hkey.2.1]
    exact hquota

/-- **Only a commit moves the counts.** -/
theorem usage_eq_of_step (hw : QuotaInvariant w) {id : ℕ}
    (hs : w.step hashApiKeyToken l = some w') (hl : callOf l = some id)
    (hopen : ∀ call ∈ w'.calls, call.id = id → call.phase.committed = none) :
    w'.db.usage = w.db.usage := by
  have hstatement : ∀ l', (w.calls.find id).bind (w.runStatement hashApiKeyToken · l') = some w' →
      w'.db.usage = w.db.usage := by
    intro l' h
    obtain ⟨call, hfind, hrun⟩ := Option.bind_eq_some_iff.mp h
    obtain ⟨hcall, hid⟩ := Table.find_eq_some.mp hfind
    rcases runStatement_cases hw hcall hrun with ⟨phase, rfl, -⟩ |
      ⟨key, now, minuteCount, dayCount, phase, -, hcommitted, -, -, rfl⟩
    · rfl
    · have hnone := hopen { call with phase := phase } (Table.mem_put_self _ _) hid
      exact absurd (hcommitted.symm.trans hnone) (by simp)
  cases l with
  | call id' token requiredScope =>
    simp only [step, Option.ite_none_left_eq_some] at hs
    obtain rfl := Option.some.inj hs.2
    rfl
  | issue row => exact absurd hl (by simp [callOf])
  | revoke userId keyId now => exact absurd hl (by simp [callOf])
  | select id' now =>
    obtain rfl := Option.some.inj hl
    exact hstatement _ hs
  | minute id' =>
    obtain rfl := Option.some.inj hl
    exact hstatement _ hs
  | day id' =>
    obtain rfl := Option.some.inj hl
    exact hstatement _ hs
  | touch id' =>
    obtain rfl := Option.some.inj hl
    exact hstatement _ hs
  | commit id' acknowledged =>
    obtain rfl := Option.some.inj hl
    exact hstatement _ hs
  | fail id' message =>
    obtain rfl := Option.some.inj hl
    exact hstatement _ hs

/-- **The quotas hold in every interleaving.** -/
theorem quotasHold_of_reachable (h : (authenticateMachine hashApiKeyToken).Reachable w) :
    QuotasHold hashApiKeyToken w := by
  have hw := quotaInvariant_of_reachable h
  refine ⟨fun row hrow period quota hquota hpos start => ?_, hw.counted,
    fun l w' id hs hl hopen => usage_eq_of_step hw hs hl hopen⟩
  have hle := requestCount_le hw hrow start hquota
  have hreturned : w.calls.rows.countP (·.returnedIn (row.id, period, start)) ≤
      w.calls.rows.countP (·.countsIn (row.id, period, start)) :=
    List.countP_mono_left fun call _ hcall => countsIn_of_returnedIn hcall
  rw [hw.counted] at hle
  omega

end AuthenticateWorld

/-! ## A sample run -/

/-- One key, for one request a minute. -/
def oneKey : AuthenticateWorld where
  db :=
    { keys := .singleton
        ⟨4, 1, "p", ⟨0⟩, "key", [.tokensRead], some 1, some 5000, none, none⟩
      usage := ∅
      events := [] }
  calls := ∅

/-- Two requests in one minute, the second authorized before the first has
counted. -/
def overlappingCalls : List AuthenticateLabel :=
  [.call 0 ⟨some "p", "a"⟩ none, .call 1 ⟨some "p", "a"⟩ (some .tokensRead), .select 0 61000,
    .select 1 62000, .minute 0, .day 0, .touch 0, .commit 0 true, .minute 1]

/-- One returns a principal, and the other is over the limit and not
counted. -/
theorem quotasHold_overlappingCalls :
    ∃ w, (authenticateMachine fun _ => ⟨0⟩).exec oneKey overlappingCalls = some w ∧
      w.calls.rows.map (·.returnedIn (4, .minute, 60000)) = [true, false] ∧
      w.db.requestCount (4, .minute, 60000) = 1 ∧ QuotasHold (fun _ => ⟨0⟩) w := by
  obtain ⟨w, hw, hvalues⟩ := Option.map_eq_some_iff.mp
    (show ((authenticateMachine fun _ => ⟨0⟩).exec oneKey overlappingCalls).map (fun w =>
        (w.calls.rows.map (·.returnedIn (4, .minute, 60000)),
          w.db.requestCount (4, .minute, 60000))) = some ([true, false], 1) by decide +kernel)
  obtain ⟨hreturned, hcount⟩ := Prod.mk.inj hvalues
  exact ⟨w, hw, hreturned, hcount,
    AuthenticateWorld.quotasHold_of_reachable (Machine.reachable_of_exec ⟨rfl, rfl⟩ hw)⟩

end HoodSentry
