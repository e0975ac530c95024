import HoodSentry.Market.Model.PoolRepository
/-!
# Pool state and the canonical chain

The stored state of a pool is raised by calls for canonical blocks and
dropped with the range it was read in. Nothing else moves it: a snapshot
below the range does not come back in its place, the reserves stay as they
were, and a snapshot taken before its block was stored is not taken up when
the block is. The calls that leave the tables right are told apart by
`PoolDb.Keeps`.
-/

namespace HoodSentry

/-! ## The calls that keep the state right -/

/-- **A call that keeps the state right**, by the tables it is made on. -/
def PoolDb.Keeps (height : Hash → ℕ) (db : PoolDb) : PoolCall → Prop
  -- a pool is registered again only under tokens with the same reserves
  | .upsertPool _ pool => ∀ row ∈ db.pools, row.key = (pool.chainId, pool.poolAddress) →
      (db.reserveRaw pool.chainId pool.poolAddress pool.token0Address,
        db.reserveRaw pool.chainId pool.poolAddress pool.token1Address) = db.reserves row
  -- a block that becomes canonical has no snapshot above a pool's state
  | .persistBlock row => row.canonical = true →
      (row.chainId, height row.hash, row.hash) ∉ db.blocks.keys →
      ∀ pool ∈ db.pools, ∀ s ∈ db.poolStateSnapshots,
        s.chainId = pool.chainId ∧ s.poolAddress = pool.address →
        s.chainId = row.chainId ∧ s.sourceBlockHash = row.hash →
        ∃ m ∈ pool.stateBlockNumber, s.sourceBlockNumber ≤ m
  -- a state that is taken up comes with reserves the token rows can hold
  | .updatePoolState chainId address state blockHash =>
      db.isCanonicalBlock chainId (height blockHash) blockHash = true →
      ∀ pool ∈ db.pools, pool.key = (chainId, address) →
        (∀ m ∈ pool.stateBlockNumber, m ≤ height blockHash) →
        match state.reserves with
        | some (reserve0Raw, reserve1Raw) =>
          pool.token0Address = pool.token1Address → reserve0Raw = reserve1Raw
        | none => db.reserves pool = (0, 0)
  -- a state that is dropped leaves no snapshot and no reserve behind
  | .handleReorg cfg fromBlock toBlock => ∀ pool ∈ db.pools,
      (∃ m ∈ pool.stateBlockNumber, inRange cfg fromBlock toBlock pool.chainId m = true) →
      (∀ s ∈ db.canonicalSnapshots pool,
        inRange cfg fromBlock toBlock s.chainId s.sourceBlockNumber = true) ∧
        db.reserves pool = (0, 0)

/-! ## Sayings -/

/-- The reserves a record tells, nothing where it is no constant product's. -/
def StateRecord.reserves : StateRecord → ℕ × ℕ
  | _ :: ("reserve0Raw", .bigint reserve0Raw) :: ("reserve1Raw", .bigint reserve1Raw) :: _ =>
    (reserve0Raw, reserve1Raw)
  | _ => (0, 0)

/-- What a snapshot says of its pool. -/
structure Saying where
  blockNumber : ℕ
  state : StateRecord
  reserves : ℕ × ℕ

def StoredSnapshotRow.saying (s : StoredSnapshotRow) : Saying :=
  ⟨s.sourceBlockNumber, s.state, s.reserve0Raw.getD 0, s.reserve1Raw.getD 0⟩

/-- **The tables tell the highest saying of a set**, or nothing where it is
empty. -/
def Tells (said : Set Saying) (pool : StoredPoolRow) (reserves : ℕ × ℕ) : Prop :=
  (said = ∅ ∧ pool.state = none ∧ pool.stateBlockNumber = none ∧ reserves = (0, 0)) ∨
    ∃ x ∈ said, (∀ y ∈ said, y.blockNumber ≤ x.blockNumber) ∧
      pool.state = some x.state ∧ pool.stateBlockNumber = some x.blockNumber ∧
      reserves = x.reserves

/-- Sayings that take their reserves from their record. -/
def Coherent (said : Set Saying) : Prop := ∀ x ∈ said, x.reserves = x.state.reserves

/-- A property of a generic state is never where a reserve would be. -/
theorem reserves_foldl_assign (state : List (String × String)) (value value' : StateValue)
    (rest : StateRecord) :
    (state.foldl StateRecord.assign
      (("poolType", value) :: ("liquidityRaw", value') :: rest)).reserves = (0, 0) := by
  induction state generalizing value value' rest with
  | nil => rfl
  | cons entry state ih =>
    rw [List.foldl_cons]
    -- the first two keys stay in their places, whatever is overwritten
    have hkeys : ∃ v v' rest', StateRecord.assign
        (("poolType", value) :: ("liquidityRaw", value') :: rest) entry =
          ("poolType", v) :: ("liquidityRaw", v') :: rest' := by
      unfold StateRecord.assign
      split
      · simp only [List.map_cons]
        split <;> split <;> exact ⟨_, _, _, rfl⟩
      · exact ⟨_, _, _, rfl⟩
    obtain ⟨v, v', rest', hassign⟩ := hkeys
    rw [hassign]
    exact ih v v' rest'

/-- **A record tells the reserves of its state.** -/
theorem reserves_stateRecord (state : NormalizedPoolState) :
    (stateRecord state).reserves = state.reserves.getD (0, 0) := by
  cases state with
  | constantProduct => rfl
  | concentratedLiquidity => rfl
  | generic poolType liquidityRaw state => exact reserves_foldl_assign state _ _ []

section Tells

variable {said : Set Saying} {pool : StoredPoolRow} {reserves reserves' : ℕ × ℕ}

/-- Only the stored state and its number are read of a pool. -/
theorem Tells.congr {pool' : StoredPoolRow} (h : Tells said pool reserves)
    (hstate : pool'.state = pool.state)
    (hnumber : pool'.stateBlockNumber = pool.stateBlockNumber) : Tells said pool' reserves := by
  unfold Tells
  rw [hstate, hnumber]
  exact h

/-- **Told sayings have one pair of reserves**: the record has them too. -/
theorem Tells.reserves_iff (hc : Coherent said) (h : Tells said pool reserves) :
    Tells said pool reserves' ↔ reserves' = reserves := by
  refine ⟨fun h' => ?_, fun h' => h' ▸ h⟩
  rcases h with ⟨-, hstate, -, hr⟩ | ⟨x, hx, -, hstate, -, hr⟩
  · rcases h' with ⟨-, -, -, hr'⟩ | ⟨y, -, -, hstate', -⟩
    · rw [hr, hr']
    · rw [hstate] at hstate'
      exact absurd hstate' (Option.some_ne_none _).symm
  · rcases h' with ⟨-, hstate', -, -⟩ | ⟨y, hy, -, hstate', -, hr'⟩
    · rw [hstate] at hstate'
      exact absurd hstate' (Option.some_ne_none _)
    · have hsame : x.state = y.state := Option.some.inj (hstate.symm.trans hstate')
      rw [hr, hr', hc x hx, hc y hy, hsame]

/-- **New sayings** leave the tables right exactly when they are no higher
than what is. -/
theorem Tells.union_iff {new : Set Saying} (h : Tells said pool reserves) :
    Tells (said ∪ new) pool reserves ↔ ∀ x ∈ new, ∃ m ∈ pool.stateBlockNumber, x.blockNumber ≤ m := by
  rcases h with ⟨hempty, hstate, hnumber, hr⟩ | ⟨x, hx, hmax, hstate, hnumber, hr⟩
  · rw [hempty, Set.empty_union, hnumber]
    constructor
    · rintro (⟨hnew, -⟩ | ⟨y, -, -, hstate', -⟩) z hz
      · exact absurd (hnew ▸ hz) (Set.notMem_empty z)
      · exact absurd (hstate.symm.trans hstate') (Option.some_ne_none _).symm
    · intro hall
      refine Or.inl ⟨?_, hstate, hnumber, hr⟩
      refine Set.eq_empty_of_forall_notMem fun z hz => ?_
      obtain ⟨m, hm, -⟩ := hall z hz
      exact absurd hm (Option.not_mem_none m)
  · constructor
    · rintro (⟨hnone, -⟩ | ⟨y, -, hmax', -, hnumber', -⟩) z hz
      · exact absurd (hnone ▸ Or.inl hx) (Set.notMem_empty x)
      · exact ⟨y.blockNumber, hnumber', hmax' z (Or.inr hz)⟩
    · intro hall
      refine Or.inr ⟨x, Or.inl hx, fun y hy => ?_, hstate, hnumber, hr⟩
      rcases hy with hy | hy
      · exact hmax y hy
      · obtain ⟨m, hm, hle⟩ := hall y hy
        rw [hnumber] at hm
        obtain rfl := Option.some.inj hm
        exact hle

/-- **A range taken back** is untold exactly when the state was not of it,
or when no saying and no reserve is left. -/
theorem Tells.diff_iff {p : ℕ → Bool} {pool' : StoredPoolRow} (h : Tells said pool reserves)
    (hdrop : pool.stateBlockNumber.any p = true →
      pool'.state = none ∧ pool'.stateBlockNumber = none)
    (hkeep : pool.stateBlockNumber.any p = false →
      pool'.state = pool.state ∧ pool'.stateBlockNumber = pool.stateBlockNumber) :
    Tells {x ∈ said | p x.blockNumber = false} pool' reserves ↔
      ((∃ m ∈ pool.stateBlockNumber, p m = true) →
        (∀ x ∈ said, p x.blockNumber = true) ∧ reserves = (0, 0)) := by
  rcases h with ⟨hempty, hstate, hnumber, hr⟩ | ⟨x, hx, hmax, hstate, hnumber, hr⟩
  · obtain ⟨hstate', hnumber'⟩ := hkeep (by rw [hnumber]; rfl)
    refine iff_of_true (Or.inl ⟨?_, hstate'.trans hstate, hnumber'.trans hnumber, hr⟩) ?_
    · rw [hempty]
      exact Set.eq_empty_of_forall_notMem fun z hz => hz.1
    · rintro ⟨m, hm, -⟩
      rw [hnumber] at hm
      exact absurd hm (Option.not_mem_none m)
  · cases hp : p x.blockNumber with
    | false =>
      obtain ⟨hstate', hnumber'⟩ := hkeep (by rw [hnumber]; exact hp)
      refine iff_of_true (Or.inr ⟨x, ⟨hx, hp⟩, fun y hy => hmax y hy.1, hstate'.trans hstate,
        hnumber'.trans hnumber, hr⟩) ?_
      rintro ⟨m, hm, hpm⟩
      rw [hnumber] at hm
      obtain rfl := Option.some.inj hm
      exact absurd (hp.symm.trans hpm) Bool.false_ne_true
    | true =>
      obtain ⟨hstate', hnumber'⟩ := hdrop (by rw [hnumber]; exact hp)
      constructor
      · rintro (⟨hnone, -, -, hr'⟩ | ⟨y, -, -, hstate'', -⟩) -
        · refine ⟨fun y hy => ?_, hr'⟩
          by_contra hpy
          exact Set.notMem_empty y (hnone ▸ ⟨hy, Bool.eq_false_iff.mpr hpy⟩)
        · exact absurd (hstate'.symm.trans hstate'') (Option.some_ne_none _).symm
      · intro hall
        obtain ⟨hrange, hzero⟩ := hall ⟨x.blockNumber, hnumber, hp⟩
        refine Or.inl ⟨Set.eq_empty_of_forall_notMem fun z hz => ?_, hstate', hnumber', hzero⟩
        exact absurd (hz.2.symm.trans (hrange z hz.1)) Bool.false_ne_true

/-- **A saying taken up** is told with its own reserves. -/
theorem tells_taken_iff {a : Saying} {pool' : StoredPoolRow} (hc : Coherent said) (ha : a ∈ said)
    (hmax : ∀ y ∈ said, y.blockNumber ≤ a.blockNumber) (hstate : pool'.state = some a.state)
    (hnumber : pool'.stateBlockNumber = some a.blockNumber) :
    Tells said pool' reserves ↔ reserves = a.reserves :=
  Tells.reserves_iff hc (Or.inr ⟨a, ha, hmax, hstate, hnumber, rfl⟩)

/-- **A saying passed over** changes nothing: a higher one is told. -/
theorem Tells.passed_over {said' : Set Saying} {n m : ℕ} (h : Tells said pool reserves)
    (hnumber : pool.stateBlockNumber = some m) (hlt : n < m)
    (hkept : ∀ x ∈ said, x.blockNumber ≠ n → x ∈ said')
    (hnew : ∀ x ∈ said', x ∈ said ∨ x.blockNumber = n) : Tells said' pool reserves := by
  rcases h with ⟨-, -, hnone, -⟩ | ⟨x, hx, hmax, hstate, hx', hr⟩
  · exact absurd (hnone.symm.trans hnumber) (Option.some_ne_none _).symm
  · have hm : x.blockNumber = m := Option.some.inj (hx'.symm.trans hnumber)
    refine Or.inr ⟨x, hkept x hx (by omega), fun y hy => ?_, hstate, hx', hr⟩
    rcases hnew y hy with hy | hy
    · exact hmax y hy
    · omega

end Tells

/-! ## Sayings of the tables -/

namespace PoolDb

variable {db db' : PoolDb} {height : Hash → ℕ}

/-- What the snapshots of a pool with canonical blocks say. -/
def said (db : PoolDb) (chainId : ℕ) (address : Address) : Set Saying :=
  {x | ∃ s ∈ db.poolStateSnapshots, (s.chainId = chainId ∧ s.poolAddress = address) ∧
    db.isCanonicalBlock s.chainId s.sourceBlockNumber s.sourceBlockHash = true ∧ s.saying = x}

theorem mem_canonicalSnapshots {pool : StoredPoolRow} {s : StoredSnapshotRow} :
    s ∈ db.canonicalSnapshots pool ↔ s ∈ db.poolStateSnapshots ∧
      (s.chainId = pool.chainId ∧ s.poolAddress = pool.address) ∧
      db.isCanonicalBlock s.chainId s.sourceBlockNumber s.sourceBlockHash = true := by
  simp [canonicalSnapshots, Table.mem_iff]

theorem mem_said {pool : StoredPoolRow} {x : Saying} :
    x ∈ db.said pool.chainId pool.address ↔ ∃ s ∈ db.canonicalSnapshots pool, s.saying = x := by
  simp only [said, Set.mem_ofPred_eq, mem_canonicalSnapshots, and_assoc]

/-- **The tables follow the chain** when they tell what the snapshots of
canonical blocks say. -/
theorem followsChain_iff_tells :
    db.FollowsChain ↔ ∀ pool ∈ db.pools,
      Tells (db.said pool.chainId pool.address) pool (db.reserves pool) := by
  refine forall₂_congr fun pool _ => or_congr (and_congr ?_ Iff.rfl) ?_
  · constructor
    · intro h
      refine Set.eq_empty_of_forall_notMem fun x hx => ?_
      obtain ⟨s, hs, -⟩ := mem_said.mp hx
      exact absurd (h ▸ hs) List.not_mem_nil
    · intro h
      refine List.eq_nil_iff_forall_not_mem.mpr fun s hs => ?_
      exact Set.notMem_empty s.saying (h ▸ mem_said.mpr ⟨s, hs, rfl⟩)
  · constructor
    · rintro ⟨s, hs, hmax, hstate, hnumber, hr⟩
      refine ⟨s.saying, mem_said.mpr ⟨s, hs, rfl⟩, fun y hy => ?_, hstate, hnumber, hr⟩
      obtain ⟨s', hs', rfl⟩ := mem_said.mp hy
      exact hmax s' hs'
    · rintro ⟨x, hx, hmax, hstate, hnumber, hr⟩
      obtain ⟨s, hs, rfl⟩ := mem_said.mp hx
      exact ⟨s, hs, fun s' hs' => hmax _ (mem_said.mpr ⟨s', hs', rfl⟩), hstate, hnumber, hr⟩

/-- **What every call keeps** of the tables, whether they are right or not. -/
structure Sound (height : Hash → ℕ) (db : PoolDb) : Prop where
  /-- A pool has the rows of its tokens. -/
  tokens : ∀ pool ∈ db.pools, ∀ token, token = pool.token0Address ∨ token = pool.token1Address →
    (pool.chainId, pool.address, token) ∈ db.poolTokens.keys
  tokenPools : ∀ r ∈ db.poolTokens, (r.chainId, r.poolAddress) ∈ db.pools.keys
  snapshotPools : ∀ s ∈ db.poolStateSnapshots, (s.chainId, s.poolAddress) ∈ db.pools.keys
  /-- A snapshot is filed under the number of its block. -/
  numbers : ∀ s ∈ db.poolStateSnapshots, s.sourceBlockNumber = height s.sourceBlockHash
  /-- The reserves of a snapshot are those its record tells. -/
  coherent : ∀ s ∈ db.poolStateSnapshots, s.saying.reserves = s.state.reserves

theorem Sound.coherent_said (h : Sound height db) (chainId : ℕ) (address : Address) :
    Coherent (db.said chainId address) := by
  rintro x ⟨s, hs, -, -, rfl⟩
  exact h.coherent s hs

/-- The sayings are read off two of the tables. -/
theorem said_congr (hblocks : db'.blocks = db.blocks)
    (hsnapshots : db'.poolStateSnapshots = db.poolStateSnapshots) : db'.said = db.said := by
  unfold said isCanonicalBlock
  rw [hblocks, hsnapshots]

theorem reserves_congr (h : db'.poolTokens = db.poolTokens) (pool : StoredPoolRow) :
    db'.reserves pool = db.reserves pool := by
  unfold reserves reserveRaw
  rw [h]

/-! ## A pool stored again -/

/-- A new row of a token holds nothing, as no row does. -/
theorem reserveRaw_upsertPoolTokens (pool : NormalizedPool) (chainId : ℕ) (address token : Address) :
    (db.upsertPoolTokens pool).reserveRaw chainId address token =
      db.reserveRaw chainId address token := by
  have hinsert : ∀ (t : Table PoolTokenRow.key) (r : PoolTokenRow), r.reserveRaw = 0 → ∀ k,
      ((t.insertNew r).find k).elim 0 (·.reserveRaw) = (t.find k).elim 0 (·.reserveRaw) := by
    intro t r hr k
    rw [Table.find_insertNew]
    cases t.find k with
    | some x => rfl
    | none =>
      rw [Option.none_or]
      split
      · exact hr
      · rfl
  unfold upsertPoolTokens reserveRaw
  simp only [List.map_cons, List.map_nil, Table.insertAll_cons, Table.insertAll_nil]
  rw [hinsert _ _ rfl, hinsert _ _ rfl]

/-- **What a pool stored again is**: a row of before, the row of before
under the new columns, or a new row. -/
theorem mem_pools_upsertPool {protocolId : ℕ} {pool : NormalizedPool} {row : StoredPoolRow}
    (h : row ∈ (db.upsertPool protocolId pool).pools) :
    (row ∈ db.pools ∧ row.key ≠ (pool.chainId, pool.poolAddress)) ∨
      (row.key = (pool.chainId, pool.poolAddress) ∧ row.token0Address = pool.token0Address ∧
        row.token1Address = pool.token1Address ∧
        ((∃ old ∈ db.pools, old.key = (pool.chainId, pool.poolAddress) ∧
            row.state = old.state ∧ row.stateBlockNumber = old.stateBlockNumber) ∨
          (pool.chainId, pool.poolAddress) ∉ db.pools.keys ∧ row.state = none ∧
            row.stateBlockNumber = none)) := by
  rcases Table.mem_upsert.mp h with ⟨hrow, hne⟩ | ⟨old, hold, hkey, rfl⟩ | ⟨rfl, hfree⟩
  · exact Or.inl ⟨hrow, hne⟩
  · exact Or.inr ⟨hkey, rfl, rfl, Or.inl ⟨old, hold, hkey, rfl, rfl⟩⟩
  · exact Or.inr ⟨rfl, rfl, rfl, Or.inr ⟨hfree, rfl, rfl⟩⟩

theorem exists_mem_pools_upsertPool (protocolId : ℕ) (pool : NormalizedPool) {old : StoredPoolRow}
    (h : old ∈ db.pools) : ∃ row ∈ (db.upsertPool protocolId pool).pools, row.key = old.key ∧
      row.state = old.state ∧ row.stateBlockNumber = old.stateBlockNumber ∧
      (old.key ≠ (pool.chainId, pool.poolAddress) → row = old) ∧
      (old.key = (pool.chainId, pool.poolAddress) → row.token0Address = pool.token0Address ∧
        row.token1Address = pool.token1Address) := by
  by_cases hkey : old.key = (pool.chainId, pool.poolAddress)
  · exact ⟨_, Table.mem_upsert.mpr (Or.inr (Or.inl ⟨old, h, hkey, rfl⟩)), rfl, rfl, rfl,
      fun hne => absurd hkey hne, fun _ => ⟨rfl, rfl⟩⟩
  · exact ⟨old, Table.mem_upsert.mpr (Or.inl ⟨h, hkey⟩), rfl, rfl, rfl, fun _ => rfl,
      fun heq => absurd heq hkey⟩

theorem keys_upsertPool {protocolId : ℕ} {pool : NormalizedPool} {k : ℕ × Address} :
    k ∈ (db.upsertPool protocolId pool).pools.keys ↔
      k ∈ db.pools.keys ∨ k = (pool.chainId, pool.poolAddress) := Table.mem_keys_upsert

theorem keys_upsertPoolTokens {pool : NormalizedPool} {k : ℕ × Address × Address} :
    k ∈ (db.upsertPoolTokens pool).poolTokens.keys ↔ k ∈ db.poolTokens.keys ∨
      k = (pool.chainId, pool.poolAddress, pool.token0Address) ∨
      k = (pool.chainId, pool.poolAddress, pool.token1Address) := by
  unfold upsertPoolTokens
  rw [Table.mem_keys_insertAll]
  simp [PoolTokenRow.key]

theorem Sound.upsertPool (h : Sound height db) (protocolId : ℕ) (pool : NormalizedPool) :
    Sound height (db.upsertPool protocolId pool) := by
  constructor
  · intro row hrow token htoken
    rw [PoolDb.upsertPool, keys_upsertPoolTokens]
    rcases mem_pools_upsertPool hrow with ⟨hold, -⟩ | ⟨hkey, h0, h1, -⟩
    · exact Or.inl (h.tokens row hold token htoken)
    · obtain ⟨hchain, haddress⟩ := Prod.mk.inj hkey
      rw [h0, h1] at htoken
      rw [hchain, haddress]
      rcases htoken with rfl | rfl
      · exact Or.inr (Or.inl rfl)
      · exact Or.inr (Or.inr rfl)
  · intro r hr
    rw [keys_upsertPool]
    have hr' : r ∈ (db.upsertPoolTokens pool).poolTokens := hr
    rcases Table.mem_of_mem_insertAll hr' with hr | ⟨hr, -⟩
    · exact Or.inl (h.tokenPools r hr)
    · obtain ⟨token, -, rfl⟩ := List.mem_map.mp hr
      exact Or.inr rfl
  · intro s hs
    rw [keys_upsertPool]
    exact Or.inl (h.snapshotPools s hs)
  · exact h.numbers
  · exact h.coherent

/-- Nothing is said of a pool that is not stored, and nothing held by it. -/
theorem Sound.of_unstored (h : Sound height db) {chainId : ℕ} {address : Address}
    (hfree : (chainId, address) ∉ db.pools.keys) :
    db.said chainId address = ∅ ∧ ∀ token, db.reserveRaw chainId address token = 0 := by
  constructor
  · refine Set.eq_empty_of_forall_notMem ?_
    rintro x ⟨s, hs, ⟨rfl, rfl⟩, -⟩
    exact hfree (h.snapshotPools s hs)
  · intro token
    have hnone : db.poolTokens.find (chainId, address, token) = none := by
      refine Table.find_eq_none.mpr fun hk => ?_
      obtain ⟨r, hr, hkey⟩ := Table.mem_keys.mp hk
      obtain ⟨rfl, hrest⟩ := Prod.mk.inj hkey
      obtain ⟨rfl, -⟩ := Prod.mk.inj hrest
      exact hfree (h.tokenPools r hr)
    rw [reserveRaw, hnone]
    rfl

/-- **A pool stored again** stays right exactly when its new tokens hold
the reserves the old ones did. -/
theorem followsChain_upsertPool_iff (h : Sound height db) (hf : db.FollowsChain) (protocolId : ℕ)
    (pool : NormalizedPool) :
    (db.upsertPool protocolId pool).FollowsChain ↔
      db.Keeps height (.upsertPool protocolId pool) := by
  rw [followsChain_iff_tells] at hf ⊢
  have hsaid : (db.upsertPool protocolId pool).said = db.said := said_congr rfl rfl
  have hraw : ∀ row : StoredPoolRow, (db.upsertPool protocolId pool).reserves row =
      db.reserves row := fun row => Prod.ext (reserveRaw_upsertPoolTokens pool _ _ _)
    (reserveRaw_upsertPoolTokens pool _ _ _)
  rw [hsaid]
  simp only [hraw]
  constructor
  · intro hall old hold hkey
    obtain ⟨row, hrow, hsame, hstate, hnumber, -, htokens⟩ :=
      exists_mem_pools_upsertPool protocolId pool hold
    obtain ⟨h0, h1⟩ := htokens hkey
    obtain ⟨hchain, haddress⟩ := Prod.mk.inj hsame
    obtain ⟨hchain', haddress'⟩ := Prod.mk.inj hkey
    have htells := (hall row hrow).congr hstate.symm hnumber.symm
    rw [hchain, haddress] at htells
    have hr := ((hf old hold).reserves_iff (h.coherent_said _ _)).mp htells
    rw [← hr, reserves, h0, h1, hchain, haddress, hchain', haddress']
  · intro hkeeps row hrow
    rcases mem_pools_upsertPool hrow with ⟨hold, -⟩ | ⟨hkey, h0, h1, hrow⟩
    · exact hf row hold
    · obtain ⟨hchain, haddress⟩ := Prod.mk.inj hkey
      rw [reserves, hchain, haddress, h0, h1]
      rcases hrow with ⟨old, hold, hkey', hstate, hnumber⟩ | ⟨hfree, hstate, hnumber⟩
      · have htells := (hf old hold).congr hstate hnumber
        obtain ⟨hchain', haddress'⟩ := Prod.mk.inj hkey'
        rw [hkeeps old hold hkey']
        rw [hchain', haddress'] at htells
        exact htells
      · obtain ⟨hempty, hzero⟩ := h.of_unstored hfree
        exact Or.inl ⟨hempty, hstate, hnumber, by rw [hzero, hzero]⟩

/-! ## A block stored -/

/-- Under a free key a block becomes what its row says it is. -/
theorem isCanonicalBlock_persistBlock (row : BlockRow) (chainId number : ℕ) (hash : Hash) :
    ({ db with blocks := db.blocks.insertNew row } : PoolDb).isCanonicalBlock chainId number hash =
        true ↔ db.isCanonicalBlock chainId number hash = true ∨
      (row.key ∉ db.blocks.keys ∧ row.canonical = true ∧ row.chainId = chainId ∧
        row.number = number ∧ row.hash = hash) := by
  have hany : ∀ db : PoolDb, db.isCanonicalBlock chainId number hash = true ↔
      ∃ r ∈ db.blocks, r.chainId = chainId ∧ r.number = number ∧ r.hash = hash ∧
        r.canonical = true := by
    intro db
    simp [isCanonicalBlock, Table.mem_iff, and_assoc]
  rw [hany, hany]
  simp only [Table.mem_insertNew]
  constructor
  · rintro ⟨r, hr | ⟨rfl, hfree⟩, hc, hn, hh, hcan⟩
    · exact Or.inl ⟨r, hr, hc, hn, hh, hcan⟩
    · exact Or.inr ⟨hfree, hcan, hc, hn, hh⟩
  · rintro (⟨r, hr, hrest⟩ | ⟨hfree, hcan, hc, hn, hh⟩)
    · exact ⟨r, Or.inl hr, hrest⟩
    · exact ⟨row, Or.inr ⟨rfl, hfree⟩, hc, hn, hh, hcan⟩

/-- What is said under a block once it is stored. -/
def saidOf (height : Hash → ℕ) (db : PoolDb) (row : BlockRow) (chainId : ℕ) (address : Address) :
    Set Saying :=
  {x | (row.canonical = true ∧ (row.chainId, height row.hash, row.hash) ∉ db.blocks.keys) ∧
    ∃ s ∈ db.poolStateSnapshots, (s.chainId = chainId ∧ s.poolAddress = address) ∧
      (s.chainId = row.chainId ∧ s.sourceBlockHash = row.hash) ∧ s.saying = x}

theorem said_persistBlock (h : Sound height db) (row : BlockRow) (chainId : ℕ)
    (address : Address) :
    (db.call height (.persistBlock row)).said chainId address =
      db.said chainId address ∪ saidOf height db row chainId address := by
  ext x
  constructor
  · rintro ⟨s, hs, hpool, hcan, hx⟩
    rcases (isCanonicalBlock_persistBlock _ _ _ _).mp hcan with hcan | ⟨hfree, hrow, hc, -, hh⟩
    · exact Or.inl ⟨s, hs, hpool, hcan, hx⟩
    · exact Or.inr ⟨⟨hrow, hfree⟩, s, hs, hpool, ⟨hc.symm, hh.symm⟩, hx⟩
  · rintro (⟨s, hs, hpool, hcan, hx⟩ | ⟨⟨hrow, hfree⟩, s, hs, hpool, ⟨hc, hh⟩, hx⟩)
    · exact ⟨s, hs, hpool, (isCanonicalBlock_persistBlock _ _ _ _).mpr (Or.inl hcan), hx⟩
    · have hn : height row.hash = s.sourceBlockNumber := by rw [h.numbers s hs, hh]
      exact ⟨s, hs, hpool, (isCanonicalBlock_persistBlock _ _ _ _).mpr
        (Or.inr ⟨hfree, hrow, hc.symm, hn, hh.symm⟩), hx⟩

/-- **A block stored** leaves the state right exactly when no snapshot of it
stands above a pool's state. -/
theorem followsChain_persistBlock_iff (h : Sound height db) (hf : db.FollowsChain)
    (row : BlockRow) :
    (db.call height (.persistBlock row)).FollowsChain ↔ db.Keeps height (.persistBlock row) := by
  rw [followsChain_iff_tells] at hf ⊢
  have hiff : ∀ pool ∈ db.pools,
      (Tells ((db.call height (.persistBlock row)).said pool.chainId pool.address) pool
        (db.reserves pool) ↔
      ∀ x ∈ saidOf height db row pool.chainId pool.address,
        ∃ m ∈ pool.stateBlockNumber, x.blockNumber ≤ m) := by
    intro pool hpool
    rw [said_persistBlock h row]
    exact (hf pool hpool).union_iff
  constructor
  · intro hall hrow hfree pool hpool s hs hsp hsr
    exact (hiff pool hpool).mp (hall pool hpool) s.saying ⟨⟨hrow, hfree⟩, s, hs, hsp, hsr, rfl⟩
  · intro hkeeps pool hpool
    refine (hiff pool hpool).mpr ?_
    rintro x ⟨⟨hrow, hfree⟩, s, hs, hsp, hsr, rfl⟩
    exact hkeeps hrow hfree pool hpool s hs hsp hsr

/-! ## A reorg handled -/

section Reorg

variable (db : PoolDb) (height : Hash → ℕ) (cfg : IndexerConfig) (fromBlock toBlock : ℕ)

theorem isCanonicalBlock_markBlocksOrphaned (chainId number : ℕ) (hash : Hash) :
    (db.markBlocksOrphaned cfg fromBlock toBlock).isCanonicalBlock chainId number hash = true ↔
      db.isCanonicalBlock chainId number hash = true ∧
        inRange cfg fromBlock toBlock chainId number = false := by
  have hany : ∀ db : PoolDb, db.isCanonicalBlock chainId number hash = true ↔
      ∃ r, (r ∈ db.blocks ∧ r.canonical = true) ∧ r.chainId = chainId ∧ r.number = number ∧
        r.hash = hash := by
    intro db
    simp only [isCanonicalBlock, List.any_eq_true, Bool.and_eq_true, decide_eq_true_eq,
      Table.mem_iff]
    constructor
    · rintro ⟨r, hr, ⟨⟨hc, hn⟩, hh⟩, hcan⟩
      exact ⟨r, ⟨hr, hcan⟩, hc, hn, hh⟩
    · rintro ⟨r, ⟨hr, hcan⟩, hc, hn, hh⟩
      exact ⟨r, hr, ⟨⟨hc, hn⟩, hh⟩, hcan⟩
  rw [hany, hany]
  have hflag : ∀ r, r ∈ (db.markBlocksOrphaned cfg fromBlock toBlock).blocks ∧
      r.canonical = true ↔
        (r ∈ db.blocks ∧ r.canonical = true) ∧
          inRange cfg fromBlock toBlock r.chainId r.number = false := by
    intro r
    dsimp only [markBlocksOrphaned]
    exact Table.mem_updateWhere_flag (fun r : BlockRow => r.canonical) fun _ => rfl
  simp only [hflag]
  constructor
  · rintro ⟨r, ⟨hr, hout⟩, rfl, rfl, rfl⟩
    exact ⟨⟨r, hr, rfl, rfl, rfl⟩, hout⟩
  · rintro ⟨⟨r, hr, rfl, rfl, rfl⟩, hout⟩
    exact ⟨r, ⟨hr, hout⟩, rfl, rfl, rfl⟩

/-- Two snapshot rows of one read. -/
def SameRead (s s' : StoredSnapshotRow) : Prop :=
  s.key = s'.key ∧ s.sourceBlockNumber = s'.sourceBlockNumber ∧ s.saying = s'.saying ∧
    s.state = s'.state

/-- The reads of before are there, with or without their flags. -/
theorem poolStateSnapshots_reorg :
    Table.Related SameRead
      (db.call height (.handleReorg cfg fromBlock toBlock)).poolStateSnapshots
      db.poolStateSnapshots := by
  dsimp only [call, markDerivedNonCanonical, markBlocksOrphaned]
  refine Table.related_updateWhere fun old => ?_
  split <;> exact ⟨rfl, rfl, rfl, rfl⟩

/-- **The sayings of the range are taken back.** -/
theorem said_reorg (chainId : ℕ) (address : Address) :
    (db.call height (.handleReorg cfg fromBlock toBlock)).said chainId address =
      {x ∈ db.said chainId address |
        inRange cfg fromBlock toBlock chainId x.blockNumber = false} := by
  obtain ⟨hfrom, hto⟩ := poolStateSnapshots_reorg db height cfg fromBlock toBlock
  ext x
  constructor
  · rintro ⟨s, hs, ⟨hc, ha⟩, hcan, rfl⟩
    obtain ⟨old, hold, hkey, hn, hsaying, -⟩ := hfrom s hs
    obtain ⟨hc', hrest⟩ := Prod.mk.inj hkey
    obtain ⟨ha', hh⟩ := Prod.mk.inj hrest
    obtain ⟨hcan, hout⟩ := (isCanonicalBlock_markBlocksOrphaned db cfg _ _ _ _ _).mp hcan
    rw [hc', hn, hh] at hcan
    exact ⟨⟨old, hold, ⟨hc'.symm.trans hc, ha'.symm.trans ha⟩, hcan, hsaying.symm⟩, hc ▸ hout⟩
  · rintro ⟨⟨old, hold, ⟨hc, ha⟩, hcan, rfl⟩, hout⟩
    obtain ⟨s, hs, hkey, hn, hsaying, -⟩ := hto old hold
    obtain ⟨hc', hrest⟩ := Prod.mk.inj hkey
    obtain ⟨ha', hh⟩ := Prod.mk.inj hrest
    refine ⟨s, hs, ⟨hc'.trans hc, ha'.trans ha⟩, ?_, hsaying⟩
    rw [hc', hn, hh]
    exact (isCanonicalBlock_markBlocksOrphaned db cfg _ _ _ _ _).mpr ⟨hcan, hc ▸ hout⟩

/-- The pool after a reorg, its state dropped where it was read in the
range. -/
def Dropped (cfg : IndexerConfig) (fromBlock toBlock : ℕ) (row pool : StoredPoolRow) : Prop :=
  (row.key = pool.key ∧ row.token0Address = pool.token0Address ∧
      row.token1Address = pool.token1Address) ∧
    ((pool.stateBlockNumber.any (inRange cfg fromBlock toBlock pool.chainId)) = true →
      row.state = none ∧ row.stateBlockNumber = none) ∧
    ((pool.stateBlockNumber.any (inRange cfg fromBlock toBlock pool.chainId)) = false →
      row.state = pool.state ∧ row.stateBlockNumber = pool.stateBlockNumber)

/-- **The pools after a reorg** are those of before, with their states
dropped. -/
theorem pools_reorg :
    Table.Related (Dropped cfg fromBlock toBlock)
      (db.call height (.handleReorg cfg fromBlock toBlock)).pools db.pools := by
  dsimp only [call, markDerivedNonCanonical, markBlocksOrphaned]
  refine (Table.related_updateWhere fun pool => ?_).updateWhere fun row pool h => ?_
  · refine ⟨?_, fun hin => ?_, fun hout => ?_⟩
    · split <;> exact ⟨rfl, rfl, rfl⟩
    · rw [if_pos hin]
      exact ⟨rfl, rfl⟩
    · rw [if_neg (Bool.eq_false_iff.mp hout)]
      exact ⟨rfl, rfl⟩
  · -- the second statement writes no column the relation reads
    split
    · exact h
    · exact h

/-- **A reorg** leaves the state right exactly when a state it drops leaves
no snapshot and no reserve behind. -/
theorem followsChain_reorg_iff (hf : db.FollowsChain) :
    (db.call height (.handleReorg cfg fromBlock toBlock)).FollowsChain ↔
      db.Keeps height (.handleReorg cfg fromBlock toBlock) := by
  rw [followsChain_iff_tells] at hf ⊢
  have hiff : ∀ row pool, pool ∈ db.pools → Dropped cfg fromBlock toBlock row pool →
      (Tells ((db.call height (.handleReorg cfg fromBlock toBlock)).said row.chainId row.address)
          row ((db.call height (.handleReorg cfg fromBlock toBlock)).reserves row) ↔
        ((∃ m ∈ pool.stateBlockNumber, inRange cfg fromBlock toBlock pool.chainId m = true) →
          (∀ s ∈ db.canonicalSnapshots pool,
            inRange cfg fromBlock toBlock s.chainId s.sourceBlockNumber = true) ∧
          db.reserves pool = (0, 0))) := by
    rintro row pool hpool ⟨⟨hkey, h0, h1⟩, hdrop, hkeep⟩
    obtain ⟨hc, ha⟩ := Prod.mk.inj hkey
    have hr : (db.call height (.handleReorg cfg fromBlock toBlock)).reserves row =
        db.reserves pool := by
      rw [reserves_congr rfl, reserves, h0, h1, hc, ha]
      rfl
    rw [said_reorg, hr, hc, ha, (hf pool hpool).diff_iff hdrop hkeep]
    refine imp_congr_right fun _ => and_congr_left fun _ => ?_
    constructor
    · intro hall s hs
      rw [(mem_canonicalSnapshots.mp hs).2.1.1]
      exact hall s.saying (mem_said.mpr ⟨s, hs, rfl⟩)
    · intro hall x hx
      obtain ⟨s, hs, rfl⟩ := mem_said.mp hx
      have hin := hall s hs
      rwa [(mem_canonicalSnapshots.mp hs).2.1.1] at hin
  obtain ⟨hfrom, hto⟩ := pools_reorg db height cfg fromBlock toBlock
  constructor
  · intro hall pool hpool
    obtain ⟨row, hrow, hdropped⟩ := hto pool hpool
    exact (hiff row pool hpool hdropped).mp (hall row hrow)
  · intro hkeeps row hrow
    obtain ⟨pool, hpool, hdropped⟩ := hfrom row hrow
    exact (hiff row pool hpool hdropped).mpr (hkeeps pool hpool)

theorem Sound.reorg (h : Sound height db) :
    Sound height (db.call height (.handleReorg cfg fromBlock toBlock)) := by
  obtain ⟨hpools, hto⟩ := pools_reorg db height cfg fromBlock toBlock
  obtain ⟨hsnapshots, -⟩ := poolStateSnapshots_reorg db height cfg fromBlock toBlock
  have hkeys : ∀ k ∈ db.pools.keys,
      k ∈ (db.call height (.handleReorg cfg fromBlock toBlock)).pools.keys := by
    intro k hk
    obtain ⟨pool, hpool, rfl⟩ := Table.mem_keys.mp hk
    obtain ⟨row, hrow, ⟨hkey, -⟩, -⟩ := hto pool hpool
    exact Table.mem_keys.mpr ⟨row, hrow, hkey⟩
  constructor
  · intro row hrow token htoken
    obtain ⟨pool, hpool, ⟨hkey, h0, h1⟩, -⟩ := hpools row hrow
    obtain ⟨hc, ha⟩ := Prod.mk.inj hkey
    rw [hc, ha]
    exact h.tokens pool hpool token (h0 ▸ h1 ▸ htoken)
  · intro r hr
    exact hkeys _ (h.tokenPools r hr)
  · intro s hs
    obtain ⟨old, hold, hkey, -⟩ := hsnapshots s hs
    obtain ⟨hc, hrest⟩ := Prod.mk.inj hkey
    rw [hc, (Prod.mk.inj hrest).1]
    exact hkeys _ (h.snapshotPools old hold)
  · intro s hs
    obtain ⟨old, hold, hkey, hn, -⟩ := hsnapshots s hs
    obtain ⟨-, hrest⟩ := Prod.mk.inj hkey
    rw [hn, (Prod.mk.inj hrest).2]
    exact h.numbers old hold
  · intro s hs
    obtain ⟨old, hold, -, -, hsaying, hstate⟩ := hsnapshots s hs
    rw [hsaying, hstate]
    exact h.coherent old hold

end Reorg

/-! ## A state read -/

section Update

variable {pool : StoredPoolRow} {state : NormalizedPoolState} {chainId : ℕ} {address : Address}
  {blockNumber : ℕ} {blockHash : Hash}

/-- What a read says of its pool. -/
def sayingOf (state : NormalizedPoolState) (blockNumber : ℕ) : Saying :=
  ⟨blockNumber, stateRecord state, state.reserves.getD (0, 0)⟩

/-- The snapshot a read is stored in. -/
def IsRead (pool : StoredPoolRow) (state : NormalizedPoolState) (blockNumber : ℕ) (blockHash : Hash)
    (s : StoredSnapshotRow) : Prop :=
  s.key = (pool.chainId, pool.address, blockHash) ∧ s.sourceBlockNumber = blockNumber ∧
    s.saying = sayingOf state blockNumber ∧ s.state = stateRecord state

/-- **The snapshots after a read**: those of other pools and blocks, and
the read's. -/
theorem snapshots_saveSnapshot (h : Sound height db) (pool : StoredPoolRow)
    (state : NormalizedPoolState) (blockHash : Hash) (canonical : Bool) :
    let saved := (db.saveSnapshot pool state (height blockHash) blockHash canonical)
    (∀ s ∈ saved.poolStateSnapshots,
      (s ∈ db.poolStateSnapshots ∧ s.key ≠ (pool.chainId, pool.address, blockHash)) ∨
        IsRead pool state (height blockHash) blockHash s) ∧
    (∀ s ∈ db.poolStateSnapshots, s.key ≠ (pool.chainId, pool.address, blockHash) →
      s ∈ saved.poolStateSnapshots) ∧
    ∃ s ∈ saved.poolStateSnapshots, IsRead pool state (height blockHash) blockHash s := by
  have hreserves : ((state.reserves.map Prod.fst).getD 0, (state.reserves.map Prod.snd).getD 0) =
      state.reserves.getD (0, 0) := by
    cases state.reserves <;> rfl
  have hmerged : ∀ old ∈ db.poolStateSnapshots, old.sourceBlockHash = blockHash →
      old.sourceBlockNumber = height blockHash := by
    intro old hold hhash
    rw [h.numbers old hold, hhash]
  refine ⟨fun s hs => ?_, fun s hs hne => Table.mem_upsert.mpr (Or.inl ⟨hs, hne⟩), ?_⟩
  · rcases Table.mem_upsert.mp hs with hs | ⟨old, hold, hkey, rfl⟩ | ⟨rfl, -⟩
    · exact Or.inl hs
    · have hn := hmerged old hold (Prod.mk.inj (Prod.mk.inj hkey).2).2
      refine Or.inr ⟨hkey, hn, ?_, rfl⟩
      simp only [StoredSnapshotRow.saying, sayingOf, hreserves, hn]
    · refine Or.inr ⟨rfl, rfl, ?_, rfl⟩
      simp only [StoredSnapshotRow.saying, sayingOf, hreserves]
  · by_cases hk : (pool.chainId, pool.address, blockHash) ∈ db.poolStateSnapshots.keys
    · obtain ⟨old, hold, hkey⟩ := Table.mem_keys.mp hk
      refine ⟨_, Table.mem_upsert.mpr (Or.inr (Or.inl ⟨old, hold, hkey, rfl⟩)), hkey, ?_, ?_, rfl⟩
      · exact hmerged old hold (Prod.mk.inj (Prod.mk.inj hkey).2).2
      · simp only [StoredSnapshotRow.saying, sayingOf, hreserves,
          hmerged old hold (Prod.mk.inj (Prod.mk.inj hkey).2).2]
    · refine ⟨_, Table.mem_upsert.mpr (Or.inr (Or.inr ⟨rfl, hk⟩)), rfl, rfl, ?_, rfl⟩
      simp only [StoredSnapshotRow.saying, sayingOf, hreserves]

/-- A read that is taken up: its block is canonical and no later one's state
is stored. -/
def Taken (db : PoolDb) (pool : StoredPoolRow) (chainId blockNumber : ℕ) (blockHash : Hash) : Prop :=
  db.isCanonicalBlock chainId blockNumber blockHash = true ∧
    ∀ m ∈ pool.stateBlockNumber, m ≤ blockNumber

/-- **A read of an indexed pool**: the snapshot is always stored, the state
and the reserves where it is taken up. -/
theorem updatePoolState_eq (hfind : db.pools.find (chainId, address) = some pool)
    (state : NormalizedPoolState) (blockNumber : ℕ) (blockHash : Hash) :
    let db' := db.updatePoolState chainId address state blockNumber blockHash
    (db'.blocks = db.blocks ∧ db'.poolStateSnapshots = (db.saveSnapshot pool state blockNumber
      blockHash (db.isCanonicalBlock chainId blockNumber blockHash)).poolStateSnapshots) ∧
    (Taken db pool chainId blockNumber blockHash →
      db'.pools = (db.setPoolState chainId address (stateRecord state) blockNumber
        blockHash).pools ∧
      db'.poolTokens = (state.reserves.elim db fun r =>
        (db.setReserve chainId address pool.token0Address r.1).setReserve chainId address
          pool.token1Address r.2).poolTokens) ∧
    (¬Taken db pool chainId blockNumber blockHash →
      db'.pools = db.pools ∧ db'.poolTokens = db.poolTokens) := by
  have hupdated : (pool.stateBlockNumber.all fun stored => decide (stored ≤ blockNumber)) = true ↔
      ∀ m ∈ pool.stateBlockNumber, m ≤ blockNumber := by
    cases pool.stateBlockNumber <;> simp
  -- the pool's row is the only one the update could meet
  have hpools : (pool.stateBlockNumber.all fun stored => decide (stored ≤ blockNumber)) = false →
      (db.setPoolState chainId address (stateRecord state) blockNumber blockHash).pools =
        db.pools := by
    intro hlater
    dsimp only [setPoolState]
    refine Table.updateWhere_eq_self fun r hr => ?_
    obtain ⟨hmem, hkey⟩ := Table.find_eq_some.mp hfind
    by_cases hk : r.chainId = chainId ∧ r.address = address
    · have hkeys : r.key = (chainId, address) := by rw [StoredPoolRow.key, hk.1, hk.2]
      have hsame : r = pool := db.pools.eq_of_key_eq hr hmem (hkeys.trans hkey.symm)
      rw [hsame, hlater, Bool.and_false]
    · simp only [← Bool.decide_and, decide_eq_false hk, Bool.false_and]
  unfold updatePoolState Taken
  rw [hfind]
  dsimp only
  rw [← hupdated]
  cases db.isCanonicalBlock chainId blockNumber blockHash with
  | false => exact ⟨⟨rfl, rfl⟩, fun h => absurd h.1 Bool.false_ne_true, fun _ => ⟨rfl, rfl⟩⟩
  | true =>
    cases hlater : pool.stateBlockNumber.all fun stored => decide (stored ≤ blockNumber) with
    | true =>
      refine ⟨?_, fun _ => ?_, fun h => absurd ⟨rfl, rfl⟩ h⟩
      · cases state.reserves <;> exact ⟨rfl, rfl⟩
      · cases state.reserves <;> exact ⟨rfl, rfl⟩
    | false =>
      refine ⟨?_, fun h => absurd h.2 Bool.false_ne_true, fun _ => ?_⟩
      · cases state.reserves <;> exact ⟨rfl, rfl⟩
      · cases state.reserves <;> exact ⟨hpools hlater, rfl⟩

/-- A reserve set is read back, of its own token. -/
theorem reserveRaw_setReserve {token : Address} {value : ℕ}
    (hkey : (chainId, address, token) ∈ db.poolTokens.keys) (chainId' : ℕ) (address' token' : Address) :
    (db.setReserve chainId address token value).reserveRaw chainId' address' token' =
      if chainId' = chainId ∧ address' = address ∧ token' = token then value
      else db.reserveRaw chainId' address' token' := by
  have hfind : (db.setReserve chainId address token value).poolTokens.find
      (chainId', address', token') = (db.poolTokens.find (chainId', address', token')).map
        fun r => if (decide (r.chainId = chainId) && decide (r.poolAddress = address) &&
          decide (r.tokenAddress = token)) = true then { r with reserveRaw := value } else r := by
    dsimp only [setReserve]
    exact Table.find_updateWhere
  unfold reserveRaw
  rw [hfind]
  cases hr : db.poolTokens.find (chainId', address', token') with
  | none =>
    rw [if_neg]
    · rfl
    · rintro ⟨rfl, rfl, rfl⟩
      exact Table.find_eq_none.mp hr hkey
  | some r =>
    obtain ⟨-, hk⟩ := Table.find_eq_some.mp hr
    obtain ⟨rfl, hrest⟩ := Prod.mk.inj hk
    obtain ⟨rfl, rfl⟩ := Prod.mk.inj hrest
    simp only [Option.map_some, Option.elim_some, Bool.and_eq_true, decide_eq_true_eq, and_assoc]
    split <;> rfl

theorem isCanonicalBlock_congr (hblocks : db'.blocks = db.blocks) :
    db'.isCanonicalBlock = db.isCanonicalBlock := by
  unfold isCanonicalBlock
  rw [hblocks]

/-- **What is said after a read**: elsewhere what was; of its pool, as
before where the block is not canonical. -/
theorem said_update (h : Sound height db) (hfind : db.pools.find (chainId, address) = some pool)
    {db' : PoolDb} (hblocks : db'.blocks = db.blocks)
    (hsnapshots : db'.poolStateSnapshots = (db.saveSnapshot pool state (height blockHash) blockHash
      (db.isCanonicalBlock chainId (height blockHash) blockHash)).poolStateSnapshots) :
    (∀ chainId' address', ((chainId', address') ≠ (chainId, address) ∨
        db.isCanonicalBlock chainId (height blockHash) blockHash = false) →
      db'.said chainId' address' = db.said chainId' address') ∧
    (db.isCanonicalBlock chainId (height blockHash) blockHash = true →
      sayingOf state (height blockHash) ∈ db'.said chainId address ∧
      (∀ x ∈ db'.said chainId address,
        x ∈ db.said chainId address ∨ x = sayingOf state (height blockHash)) ∧
      ∀ x ∈ db.said chainId address, x.blockNumber ≠ height blockHash →
        x ∈ db'.said chainId address) := by
  obtain ⟨-, hkey⟩ := Table.find_eq_some.mp hfind
  obtain ⟨hc, ha⟩ := Prod.mk.inj hkey
  obtain ⟨hfrom, hold, s₀, hs₀, hkey₀, hn₀, hsaying₀, -⟩ :=
    snapshots_saveSnapshot h pool state blockHash
      (db.isCanonicalBlock chainId (height blockHash) blockHash)
  rw [← hsnapshots] at hfrom hold hs₀
  rw [hc, ha] at hfrom hold hkey₀
  refine ⟨fun chainId' address' hother => ?_, fun hcan => ⟨?_, ?_, ?_⟩⟩
  · -- a read's snapshot is of its pool and its block, neither of which is meant here
    have hnot : ∀ s : StoredSnapshotRow, s.key = (chainId, address, blockHash) →
        s.sourceBlockNumber = height blockHash → s.chainId = chainId' ∧ s.poolAddress = address' →
        db.isCanonicalBlock s.chainId s.sourceBlockNumber s.sourceBlockHash = true → False := by
      rintro s hk hn ⟨rfl, rfl⟩ hcan
      obtain ⟨hsc, hrest⟩ := Prod.mk.inj hk
      obtain ⟨hsa, hsh⟩ := Prod.mk.inj hrest
      rcases hother with hne | hnot
      · exact hne (Prod.ext hsc hsa)
      · rw [hsc, hn, hsh, hnot] at hcan
        exact Bool.false_ne_true hcan
    unfold said
    rw [isCanonicalBlock_congr hblocks]
    ext x
    constructor
    · rintro ⟨s, hs, hpool, hcan, hx⟩
      rcases hfrom s hs with ⟨hs, -⟩ | ⟨hk, hn, -, -⟩
      · exact ⟨s, hs, hpool, hcan, hx⟩
      · exact (hnot s (by rw [hk, hc, ha]) hn hpool hcan).elim
    · rintro ⟨s, hs, hpool, hcan, hx⟩
      refine ⟨s, hold s hs fun hk => ?_, hpool, hcan, hx⟩
      refine hnot s hk ?_ hpool hcan
      rw [h.numbers s hs, (Prod.mk.inj (Prod.mk.inj hk).2).2]
  · obtain ⟨hsc, hrest⟩ := Prod.mk.inj hkey₀
    obtain ⟨hsa, hsh⟩ := Prod.mk.inj hrest
    refine ⟨s₀, hs₀, ⟨hsc, hsa⟩, ?_, hsaying₀⟩
    rw [isCanonicalBlock_congr hblocks, hsc, hn₀, hsh]
    exact hcan
  · rintro x ⟨s, hs, hpool, hscan, hx⟩
    rw [isCanonicalBlock_congr hblocks] at hscan
    rcases hfrom s hs with ⟨hs, -⟩ | ⟨-, -, hsaying, -⟩
    · exact Or.inl ⟨s, hs, hpool, hscan, hx⟩
    · exact Or.inr (hx.symm.trans hsaying)
  · rintro x ⟨s, hs, hpool, hscan, rfl⟩ hne
    refine ⟨s, hold s hs fun hk => hne ?_, hpool, ?_, rfl⟩
    · have hn : s.saying.blockNumber = height s.sourceBlockHash := h.numbers s hs
      rw [hn, (Prod.mk.inj (Prod.mk.inj hk).2).2]
    · rw [isCanonicalBlock_congr hblocks]
      exact hscan

/-- The rows after a state is set: the pool's with the new state, the
others as they were. -/
theorem mem_setPoolState (hfind : db.pools.find (chainId, address) = some pool)
    (hle : ∀ m ∈ pool.stateBlockNumber, m ≤ blockNumber) (record : StateRecord)
    (row : StoredPoolRow) :
    row ∈ (db.setPoolState chainId address record blockNumber blockHash).pools ↔
      (row ∈ db.pools ∧ row.key ≠ (chainId, address)) ∨
        row = { pool with
          state := some record
          stateBlockNumber := some blockNumber
          stateBlockHash := some blockHash } := by
  obtain ⟨hmem, hkey⟩ := Table.find_eq_some.mp hfind
  have hall : (pool.stateBlockNumber.all fun stored => decide (stored ≤ blockNumber)) = true := by
    cases hm : pool.stateBlockNumber with
    | none => rfl
    | some m => exact decide_eq_true (hle m hm)
  have hkeyed : ∀ r : StoredPoolRow, r.key = (chainId, address) ↔
      r.chainId = chainId ∧ r.address = address := fun r => Prod.mk.injEq .. ▸ Iff.rfl
  have hhit : ∀ r ∈ db.pools, r.key = (chainId, address) → r = pool := fun r hr hk =>
    db.pools.eq_of_key_eq hr hmem (hk.trans hkey.symm)
  dsimp only [setPoolState]
  refine Table.mem_updateWhere.trans ?_
  constructor
  · rintro ⟨r, hr, rfl⟩
    by_cases hk : r.key = (chainId, address)
    · obtain rfl := hhit r hr hk
      obtain ⟨hc, ha⟩ := (hkeyed r).mp hk
      simp [hc, ha, hall]
    · have hmiss : ¬(r.chainId = chainId ∧ r.address = address) := fun h => hk ((hkeyed r).mpr h)
      rw [if_neg]
      · exact Or.inl ⟨hr, hk⟩
      · simp only [Bool.and_eq_true, decide_eq_true_eq]
        exact fun h => hmiss h.1
  · rintro (⟨hr, hk⟩ | rfl)
    · refine ⟨row, hr, ?_⟩
      rw [if_neg]
      simp only [Bool.and_eq_true, decide_eq_true_eq]
      exact fun h => hk ((hkeyed row).mpr h.1)
    · refine ⟨pool, hmem, ?_⟩
      obtain ⟨hc, ha⟩ := (hkeyed pool).mp hkey
      rw [if_pos]
      simp [hc, ha, hall]

/-- The reserves of the pools after a read is taken up. -/
theorem reserves_taken (h : Sound height db) (hfind : db.pools.find (chainId, address) = some pool)
    {db' : PoolDb}
    (htokens : db'.poolTokens = (state.reserves.elim db fun r =>
      (db.setReserve chainId address pool.token0Address r.1).setReserve chainId address
        pool.token1Address r.2).poolTokens) :
    (∀ row : StoredPoolRow, row.key ≠ (chainId, address) → db'.reserves row = db.reserves row) ∧
      (db'.reserves pool = state.reserves.getD (0, 0) ↔
        match state.reserves with
        | some (reserve0Raw, reserve1Raw) =>
          pool.token0Address = pool.token1Address → reserve0Raw = reserve1Raw
        | none => db.reserves pool = (0, 0)) := by
  obtain ⟨hmem, hkey⟩ := Table.find_eq_some.mp hfind
  obtain ⟨rfl, rfl⟩ := Prod.mk.inj hkey
  cases hr : state.reserves with
  | none =>
    rw [hr] at htokens
    refine ⟨fun row _ => reserves_congr htokens row, ?_⟩
    rw [reserves_congr htokens]
    exact Iff.rfl
  | some r =>
    obtain ⟨reserve0Raw, reserve1Raw⟩ := r
    rw [hr] at htokens
    have h0 := h.tokens pool hmem _ (Or.inl rfl)
    have h1 : (pool.chainId, pool.address, pool.token1Address) ∈
        (db.setReserve pool.chainId pool.address pool.token0Address reserve0Raw).poolTokens.keys := by
      have hkeys : (db.setReserve pool.chainId pool.address pool.token0Address
          reserve0Raw).poolTokens.keys = db.poolTokens.keys := by
        dsimp only [setReserve]
        exact Table.keys_updateWhere
      rw [hkeys]
      exact h.tokens pool hmem _ (Or.inr rfl)
    have hraw : ∀ chainId' address' token', db'.reserveRaw chainId' address' token' =
        if chainId' = pool.chainId ∧ address' = pool.address ∧ token' = pool.token1Address then
          reserve1Raw
        else if chainId' = pool.chainId ∧ address' = pool.address ∧ token' = pool.token0Address then
          reserve0Raw
        else db.reserveRaw chainId' address' token' := by
      intro chainId' address' token'
      rw [← reserveRaw_setReserve h0, ← reserveRaw_setReserve h1, reserveRaw, htokens]
      rfl
    constructor
    · intro row hrow
      have hmiss : ∀ token, ¬(row.chainId = pool.chainId ∧ row.address = pool.address ∧ token) :=
        fun token hall => hrow (Prod.ext hall.1 hall.2.1)
      rw [reserves, reserves, hraw, hraw, if_neg (hmiss _), if_neg (hmiss _), if_neg (hmiss _),
        if_neg (hmiss _)]
    · rw [reserves, hraw, hraw]
      simp only [true_and, and_true, if_true, Option.getD_some, Prod.mk.injEq]
      by_cases heq : pool.token0Address = pool.token1Address
      · rw [if_pos heq]
        exact ⟨fun he _ => he.symm, fun he => (he heq).symm⟩
      · rw [if_neg heq]
        exact iff_of_true rfl fun he => absurd he heq

/-- The pools stay the pools they are. -/
theorem pools_update (hfind : db.pools.find (chainId, address) = some pool) :
    ∀ row ∈ (db.updatePoolState chainId address state blockNumber blockHash).pools,
      ∃ old ∈ db.pools, row.key = old.key ∧ row.token0Address = old.token0Address ∧
        row.token1Address = old.token1Address := by
  obtain ⟨hmem, -⟩ := Table.find_eq_some.mp hfind
  obtain ⟨-, htaken, hpassed⟩ :=
    updatePoolState_eq hfind state blockNumber blockHash
  intro row hrow
  by_cases ht : Taken db pool chainId blockNumber blockHash
  · rw [(htaken ht).1] at hrow
    rcases (mem_setPoolState hfind ht.2 _ row).mp hrow with ⟨hrow, -⟩ | rfl
    · exact ⟨row, hrow, rfl, rfl, rfl⟩
    · exact ⟨pool, hmem, rfl, rfl, rfl⟩
  · rw [(hpassed ht).1] at hrow
    exact ⟨row, hrow, rfl, rfl, rfl⟩

/-- **A read** leaves the state right exactly when what is taken up of it
comes with reserves the token rows can hold. -/
theorem followsChain_update_iff (h : Sound height db) (hf : db.FollowsChain) (chainId : ℕ)
    (address : Address) (state : NormalizedPoolState) (blockHash : Hash) :
    (db.call height (.updatePoolState chainId address state blockHash)).FollowsChain ↔
      db.Keeps height (.updatePoolState chainId address state blockHash) := by
  cases hfind : db.pools.find (chainId, address) with
  | none =>
    have hsame : db.call height (.updatePoolState chainId address state blockHash) = db := by
      rw [call, updatePoolState, hfind]
    rw [hsame]
    refine iff_of_true hf fun _ pool hpool hkey => ?_
    exact absurd (Table.mem_keys.mpr ⟨pool, hpool, hkey⟩) (Table.find_eq_none.mp hfind)
  | some pool =>
    obtain ⟨hmem, hkey⟩ := Table.find_eq_some.mp hfind
    have hunique : ∀ row ∈ db.pools, row.key = (chainId, address) → row = pool := fun row hr hk =>
      db.pools.eq_of_key_eq hr hmem (hk.trans hkey.symm)
    obtain ⟨⟨hblocks, hsnapshots⟩, htaken, hpassed⟩ :=
      updatePoolState_eq hfind state (height blockHash) blockHash
    obtain ⟨hother, hread⟩ := said_update h hfind hblocks hsnapshots
    rw [followsChain_iff_tells] at hf ⊢
    rw [call]
    by_cases ht : Taken db pool chainId (height blockHash) blockHash
    · obtain ⟨hpools, htokens⟩ := htaken ht
      obtain ⟨hread, hfrom, -⟩ := hread ht.1
      obtain ⟨hreserves, hiff⟩ := reserves_taken h hfind htokens
      obtain ⟨hc, ha⟩ := Prod.mk.inj hkey
      have hmax : ∀ x ∈ (db.updatePoolState chainId address state (height blockHash)
          blockHash).said chainId address, x.blockNumber ≤ height blockHash := by
        intro x hx
        rcases hfrom x hx with hx | rfl
        · have htells := hf pool hmem
          rw [hc, ha] at htells
          rcases htells with ⟨hempty, -⟩ | ⟨y, -, hy, -, hnumber, -⟩
          · exact absurd (hempty ▸ hx) (Set.notMem_empty x)
          · exact (hy x hx).trans (ht.2 _ hnumber)
        · exact le_rfl
      have hcoherent : Coherent ((db.updatePoolState chainId address state (height blockHash)
          blockHash).said chainId address) := by
        intro x hx
        rcases hfrom x hx with hx | rfl
        · exact h.coherent_said _ _ x hx
        · exact (reserves_stateRecord state).symm
      -- the pool's own row decides, the others are as they were
      rw [hpools]
      constructor
      · intro hall _ row hrow hk _
        obtain rfl := hunique row hrow hk
        have htells := hall _ ((mem_setPoolState hfind ht.2 _ _).mpr (Or.inr rfl))
        dsimp only at htells
        rw [hc, ha] at htells
        exact hiff.mp ((tells_taken_iff hcoherent hread hmax rfl rfl).mp htells)
      · intro hkeeps row hrow
        rcases (mem_setPoolState hfind ht.2 _ row).mp hrow with ⟨hrow, hne⟩ | rfl
        · rw [hother _ _ (Or.inl hne), hreserves row hne]
          exact hf row hrow
        · dsimp only
          rw [hc, ha]
          exact (tells_taken_iff hcoherent hread hmax rfl rfl).mpr
            (hiff.mpr (hkeeps ht.1 pool hmem hkey ht.2))
    · obtain ⟨hpools, htokens⟩ := hpassed ht
      have hnot : db.Keeps height (.updatePoolState chainId address state blockHash) := by
        intro hcan row hrow hk hle
        obtain rfl := hunique row hrow hk
        exact absurd ⟨hcan, hle⟩ ht
      refine iff_of_true (fun row hrow => ?_) hnot
      rw [hpools] at hrow
      rw [reserves_congr htokens]
      by_cases hsame : (row.chainId, row.address) ≠ (chainId, address) ∨
          db.isCanonicalBlock chainId (height blockHash) blockHash = false
      · rw [hother _ _ hsame]
        exact hf row hrow
      · -- the block is canonical, so a later one's state is stored
        rw [not_or, not_not, Bool.not_eq_false] at hsame
        obtain ⟨hk, hcan⟩ := hsame
        obtain rfl := hunique row hrow hk
        obtain ⟨rfl, rfl⟩ := Prod.mk.inj hk
        obtain ⟨-, hfrom, hto⟩ := hread hcan
        have hlater : ∃ m ∈ row.stateBlockNumber, height blockHash < m := by
          by_contra hnone
          refine ht ⟨hcan, fun m hm => ?_⟩
          by_contra hlt
          exact hnone ⟨m, hm, by omega⟩
        obtain ⟨m, hm, hlt⟩ := hlater
        refine (hf row hrow).passed_over hm hlt hto fun x hx => ?_
        rcases hfrom x hx with hx | rfl
        · exact Or.inl hx
        · exact Or.inr rfl

theorem Sound.update (h : Sound height db) (chainId : ℕ) (address : Address)
    (state : NormalizedPoolState) (blockHash : Hash) :
    Sound height (db.call height (.updatePoolState chainId address state blockHash)) := by
  cases hfind : db.pools.find (chainId, address) with
  | none =>
    rw [call, updatePoolState, hfind]
    exact h
  | some pool =>
    obtain ⟨hmem, hkey⟩ := Table.find_eq_some.mp hfind
    obtain ⟨⟨-, hsnapshots⟩, htaken, hpassed⟩ :=
      updatePoolState_eq hfind state (height blockHash) blockHash
    obtain ⟨hfrom, -, -⟩ := snapshots_saveSnapshot h pool state blockHash
      (db.isCanonicalBlock chainId (height blockHash) blockHash)
    rw [← hsnapshots] at hfrom
    have hpoolKeys : (db.updatePoolState chainId address state (height blockHash)
        blockHash).pools.keys = db.pools.keys := by
      by_cases ht : Taken db pool chainId (height blockHash) blockHash
      · rw [(htaken ht).1]
        dsimp only [setPoolState]
        exact Table.keys_updateWhere
      · rw [(hpassed ht).1]
    have hset : ∀ (db : PoolDb) token value,
        (db.setReserve chainId address token value).poolTokens.keys = db.poolTokens.keys := by
      intro db token value
      dsimp only [setReserve]
      exact Table.keys_updateWhere
    have htokenKeys : (db.updatePoolState chainId address state (height blockHash)
        blockHash).poolTokens.keys = db.poolTokens.keys := by
      by_cases ht : Taken db pool chainId (height blockHash) blockHash
      · rw [(htaken ht).2]
        cases state.reserves with
        | none => rfl
        | some r =>
          dsimp only [Option.elim_some]
          rw [hset, hset]
      · rw [(hpassed ht).2]
    rw [call]
    constructor
    · intro row hrow token htoken
      obtain ⟨old, hold, hk, h0, h1⟩ := pools_update hfind row hrow
      obtain ⟨hc, ha⟩ := Prod.mk.inj hk
      rw [htokenKeys, hc, ha]
      exact h.tokens old hold token (h0 ▸ h1 ▸ htoken)
    · intro r hr
      rw [hpoolKeys]
      have hk : r.key ∈ db.poolTokens.keys := htokenKeys ▸ Table.key_mem_keys hr
      obtain ⟨r', hr', hrk⟩ := Table.mem_keys.mp hk
      obtain ⟨hc, hrest⟩ := Prod.mk.inj hrk
      rw [← hc, ← (Prod.mk.inj hrest).1]
      exact h.tokenPools r' hr'
    · intro s hs
      rw [hpoolKeys]
      rcases hfrom s hs with ⟨hs, -⟩ | ⟨hk, -⟩
      · exact h.snapshotPools s hs
      · obtain ⟨hc, hrest⟩ := Prod.mk.inj hk
        rw [hc, (Prod.mk.inj hrest).1]
        exact Table.key_mem_keys hmem
    · intro s hs
      rcases hfrom s hs with ⟨hs, -⟩ | ⟨hk, hn, -⟩
      · exact h.numbers s hs
      · rw [hn, (Prod.mk.inj (Prod.mk.inj hk).2).2]
    · intro s hs
      rcases hfrom s hs with ⟨hs, -⟩ | ⟨-, -, hsaying, hstate⟩
      · exact h.coherent s hs
      · rw [hsaying, hstate]
        exact (reserves_stateRecord state).symm

end Update

/-! ## Runs -/

theorem sound_empty (height : Hash → ℕ) : Sound height empty :=
  ⟨fun _ h => absurd h List.not_mem_nil, fun _ h => absurd h List.not_mem_nil,
    fun _ h => absurd h List.not_mem_nil, fun _ h => absurd h List.not_mem_nil,
    fun _ h => absurd h List.not_mem_nil⟩

theorem Sound.call (h : Sound height db) (call : PoolCall) : Sound height (db.call height call) := by
  cases call with
  | upsertPool protocolId pool => exact h.upsertPool protocolId pool
  | persistBlock row => exact ⟨h.tokens, h.tokenPools, h.snapshotPools, h.numbers, h.coherent⟩
  | updatePoolState chainId address state blockHash => exact h.update chainId address state blockHash
  | handleReorg cfg fromBlock toBlock => exact h.reorg db height cfg fromBlock toBlock

/-- **One call keeps the state right exactly when it meets the condition.** -/
theorem followsChain_call_iff (h : Sound height db) (hf : db.FollowsChain) (call : PoolCall) :
    (db.call height call).FollowsChain ↔ db.Keeps height call := by
  cases call with
  | upsertPool protocolId pool => exact followsChain_upsertPool_iff h hf protocolId pool
  | persistBlock row => exact followsChain_persistBlock_iff h hf row
  | updatePoolState chainId address state blockHash =>
    exact followsChain_update_iff h hf chainId address state blockHash
  | handleReorg cfg fromBlock toBlock =>
    exact followsChain_reorg_iff db height cfg fromBlock toBlock hf

theorem exec_poolMachine (height : Hash → ℕ) (calls : List PoolCall) (db : PoolDb) :
    (poolMachine height).exec db calls = some (calls.foldl (PoolDb.call height) db) := by
  induction calls generalizing db with
  | nil => rfl
  | cons call calls ih => exact ih (db.call height call)

/-! ## A pool the replacement blocks pass by -/

/-- A pair read at two blocks. -/
def samplePool : NormalizedPool where
  chainId := 1
  protocolKey := "uniswap-v2"
  protocolVersion := "2"
  poolAddress := ⟨10⟩
  factoryAddress := ⟨11⟩
  token0Address := ⟨12⟩
  token1Address := ⟨13⟩
  feeTier := some 3000
  tickSpacing := none
  poolType := "constantProduct"
  createdBlockNumber := 90
  createdBlockHash := ⟨90⟩
  creationTransactionHash := ⟨1⟩
  creationLogIndex := 0
  canonical := true

def sampleBlock (hash : ℕ) : BlockRow where
  chainId := 1
  number := 0
  hash := ⟨hash⟩
  parentHash := ⟨0⟩
  timestamp := 0
  finalityState := .pending
  canonical := true

def sampleConfig : IndexerConfig where
  chainId := 1
  batchSize := 10
  logWindowEnabled := true
  persistRawLogs := true
  startBlock := none
  finalityConfirmations := 64
  safeConfirmations := 12

/-- The pair is read at blocks 99 and 100, block 100 is orphaned, and the
block that replaces it holds no event of the pair. -/
def passedByCalls : List PoolCall :=
  [.upsertPool 7 samplePool,
    .persistBlock (sampleBlock 99), .updatePoolState 1 ⟨10⟩ (.constantProduct 5 8 6) ⟨99⟩,
    .persistBlock (sampleBlock 100), .updatePoolState 1 ⟨10⟩ (.constantProduct 4 10 6) ⟨100⟩,
    .handleReorg sampleConfig 100 100, .persistBlock (sampleBlock 1100)]

end PoolDb

end HoodSentry
