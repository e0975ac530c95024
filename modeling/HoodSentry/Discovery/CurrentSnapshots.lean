import HoodSentry.Common.Machine
import HoodSentry.Discovery.Model.Repository
/-!
# The current snapshot of a token

The feeds read one row a token, and the repository keeps it beside the
snapshots. It is the newest snapshot that is still canonical as long as no call
leaves that to chance: a save that stores nothing new at its height, or stores
what is not canonical, must lie below the current row, and a reorg must not
take the current row of a token with an older canonical snapshot. A step keeps
the row right exactly then, and so does a run (`newest_throughout_iff`).
-/

namespace HoodSentry

namespace DiscoveryTables

variable {t : DiscoveryTables} {item : DiscoveryItem} {row old x : DiscoveryRow}
variable {chainId fromBlock toBlock : ℕ}

/-- **The current rows are the newest canonical snapshots**, one for every
token that has such a snapshot. -/
structure Newest (t : DiscoveryTables) : Prop where
  shown : ∀ row ∈ t.current, row ∈ t.snapshots ∧ row.canonical = true ∧
    ∀ s ∈ t.snapshots, s.currentKey = row.currentKey → s.canonical = true →
      s.sourceBlockNumber ≤ row.sourceBlockNumber
  present : ∀ s ∈ t.snapshots, s.canonical = true → s.currentKey ∈ t.current.keys

/-! ## Saving -/

theorem snapshotKey_eq_iff : x.snapshotKey = row.snapshotKey ↔
    x.currentKey = row.currentKey ∧ x.sourceBlockNumber = row.sourceBlockNumber :=
  Prod.mk.injEq .. ▸ Iff.rfl

/-- What the upsert makes of the current row of the item's token. -/
def replaced (item : DiscoveryItem) (old : DiscoveryRow) : DiscoveryRow :=
  if old.sourceBlockNumber ≤ item.sourceBlockNumber then values item else old

theorem mem_current_saveSnapshot : x ∈ (t.saveSnapshot item).current ↔
    (x ∈ t.current ∧ x.currentKey ≠ (values item).currentKey) ∨
      (∃ old ∈ t.current, old.currentKey = (values item).currentKey ∧ x = replaced item old) ∨
      (x = values item ∧ (values item).currentKey ∉ t.current.keys) := by
  have hmerge : ∀ old : DiscoveryRow, old.currentKey = (values item).currentKey →
      (if old.sourceBlockNumber ≤ item.sourceBlockNumber then
        { old with
          sourceBlockNumber := item.sourceBlockNumber
          sourceBlockHash := item.sourceBlockHash
          scoreBps := item.scoreBps
          confidenceBps := item.confidenceBps
          payload := item
          canonical := item.canonical
          observedAt := item.observedAt }
      else old) = replaced item old := by
    rintro ⟨chain, token, methodology, _⟩ hkey
    simp only [DiscoveryRow.currentKey, values, Prod.mk.injEq] at hkey
    obtain ⟨rfl, rfl, rfl⟩ := hkey
    rfl
  rw [saveSnapshot, Table.mem_upsert]
  refine or_congr Iff.rfl (or_congr ?_ Iff.rfl)
  refine exists_congr fun old => and_congr_right fun _ => and_congr_right fun hkey => ?_
  rw [hmerge old hkey]

theorem mem_snapshots_saveSnapshot : x ∈ (t.saveSnapshot item).snapshots ↔
    x ∈ t.snapshots ∨ (x = values item ∧ (values item).snapshotKey ∉ t.snapshots.keys) :=
  Table.mem_insertNew

theorem mem_keys_current_saveSnapshot {k : ℕ × Address × String} :
    k ∈ (t.saveSnapshot item).current.keys ↔
      k ∈ t.current.keys ∨ k = (values item).currentKey :=
  Table.mem_keys_upsert

/-- **A save that keeps the current row right**: a later block is current, or
the item is canonical and the first of its token at its height, or it repeats
the current row. -/
def SaveKeeps (t : DiscoveryTables) (item : DiscoveryItem) : Prop :=
  (∃ old ∈ t.current, old.currentKey = (values item).currentKey ∧
      item.sourceBlockNumber < old.sourceBlockNumber) ∨
    (item.canonical = true ∧ (values item).snapshotKey ∉ t.snapshots.keys) ∨
    values item ∈ t.current

/-- The row of a later block stays. -/
theorem newest_of_later (h : t.Newest) (hold : old ∈ t.current)
    (hkey : old.currentKey = (values item).currentKey)
    (hlater : item.sourceBlockNumber < old.sourceBlockNumber) : (t.saveSnapshot item).Newest := by
  have hcurrent : ∀ {x}, x ∈ (t.saveSnapshot item).current → x ∈ t.current := by
    intro x hx
    rcases mem_current_saveSnapshot.mp hx with ⟨hx, -⟩ | ⟨r, hr, hrkey, rfl⟩ | ⟨-, hfree⟩
    · exact hx
    · obtain rfl := Table.eq_of_key_eq hr hold (hrkey.trans hkey.symm)
      rw [replaced, if_neg (by omega)]
      exact hr
    · exact absurd (Table.mem_keys.mpr ⟨old, hold, hkey⟩) hfree
  constructor
  · intro row hrow
    obtain ⟨hmem, hcanonical, hmax⟩ := h.shown row (hcurrent hrow)
    refine ⟨mem_snapshots_saveSnapshot.mpr (Or.inl hmem), hcanonical, fun s hs hskey hsc => ?_⟩
    rcases mem_snapshots_saveSnapshot.mp hs with hs | ⟨rfl, -⟩
    · exact hmax s hs hskey hsc
    · obtain rfl := Table.eq_of_key_eq (hcurrent hrow) hold (hskey.symm.trans hkey.symm)
      exact hlater.le
  · intro s hs hsc
    rw [mem_keys_current_saveSnapshot]
    rcases mem_snapshots_saveSnapshot.mp hs with hs | ⟨rfl, -⟩
    · exact Or.inl (h.present s hs hsc)
    · exact Or.inr rfl

/-- The first canonical item at a height becomes current unless it is late. -/
theorem newest_of_fresh (h : t.Newest) (hcanonical : item.canonical = true)
    (hfresh : (values item).snapshotKey ∉ t.snapshots.keys) : (t.saveSnapshot item).Newest := by
  have hnew : values item ∈ (t.saveSnapshot item).snapshots :=
    mem_snapshots_saveSnapshot.mpr (Or.inr ⟨rfl, hfresh⟩)
  constructor
  · intro row hrow
    rcases mem_current_saveSnapshot.mp hrow with ⟨hmem, hne⟩ | ⟨old, hold, hkey, rfl⟩ | ⟨rfl, hfree⟩
    · obtain ⟨hmem, hc, hmax⟩ := h.shown row hmem
      refine ⟨mem_snapshots_saveSnapshot.mpr (Or.inl hmem), hc, fun s hs hskey hsc => ?_⟩
      rcases mem_snapshots_saveSnapshot.mp hs with hs | ⟨rfl, -⟩
      · exact hmax s hs hskey hsc
      · exact absurd hskey.symm hne
    · obtain ⟨hmem, hc, hmax⟩ := h.shown old hold
      by_cases hle : old.sourceBlockNumber ≤ item.sourceBlockNumber
      · rw [replaced, if_pos hle]
        refine ⟨hnew, hcanonical, fun s hs hskey hsc => ?_⟩
        rcases mem_snapshots_saveSnapshot.mp hs with hs | ⟨rfl, -⟩
        · exact (hmax s hs (hskey.trans hkey.symm) hsc).trans hle
        · exact le_rfl
      · rw [replaced, if_neg hle]
        refine ⟨mem_snapshots_saveSnapshot.mpr (Or.inl hmem), hc, fun s hs hskey hsc => ?_⟩
        rcases mem_snapshots_saveSnapshot.mp hs with hs | ⟨rfl, -⟩
        · exact hmax s hs hskey hsc
        · exact (not_le.mp hle).le
    · refine ⟨hnew, hcanonical, fun s hs hskey hsc => ?_⟩
      rcases mem_snapshots_saveSnapshot.mp hs with hs | ⟨rfl, -⟩
      · exact absurd (hskey ▸ h.present s hs hsc) hfree
      · exact le_rfl
  · intro s hs hsc
    rw [mem_keys_current_saveSnapshot]
    rcases mem_snapshots_saveSnapshot.mp hs with hs | ⟨rfl, -⟩
    · exact Or.inl (h.present s hs hsc)
    · exact Or.inr rfl

/-- Saving the current row again changes nothing. -/
theorem newest_of_repeated (h : t.Newest) (hcurrent : values item ∈ t.current) :
    (t.saveSnapshot item).Newest := by
  have hstored := Table.key_mem_keys (h.shown _ hcurrent).1
  have hsnapshots : ∀ {x}, x ∈ (t.saveSnapshot item).snapshots ↔ x ∈ t.snapshots := by
    intro x
    rw [mem_snapshots_saveSnapshot]
    exact or_iff_left fun hx => hx.2 hstored
  have hrows : ∀ {x}, x ∈ (t.saveSnapshot item).current → x ∈ t.current := by
    intro x hx
    rcases mem_current_saveSnapshot.mp hx with ⟨hx, -⟩ | ⟨old, hold, hkey, rfl⟩ | ⟨rfl, -⟩
    · exact hx
    · obtain rfl := Table.eq_of_key_eq hold hcurrent hkey
      rw [replaced, ite_self]
      exact hcurrent
    · exact hcurrent
  constructor
  · intro row hrow
    obtain ⟨hmem, hcanonical, hmax⟩ := h.shown row (hrows hrow)
    exact ⟨hsnapshots.mpr hmem, hcanonical, fun s hs => hmax s (hsnapshots.mp hs)⟩
  · intro s hs hsc
    exact mem_keys_current_saveSnapshot.mpr (Or.inl (h.present s (hsnapshots.mp hs) hsc))

theorem newest_saveSnapshot_iff (h : t.Newest) :
    (t.saveSnapshot item).Newest ↔ t.SaveKeeps item := by
  constructor
  · intro hnext
    -- a row that is written must be a canonical snapshot
    have hwritten : values item ∈ (t.saveSnapshot item).current →
        item.canonical = true ∧
          (values item ∈ t.snapshots ∨ (values item).snapshotKey ∉ t.snapshots.keys) := by
      intro hrow
      obtain ⟨hmem, hcanonical, -⟩ := hnext.shown _ hrow
      exact ⟨hcanonical, (mem_snapshots_saveSnapshot.mp hmem).imp_right And.right⟩
    by_cases hkey : (values item).currentKey ∈ t.current.keys
    · obtain ⟨old, hold, hkey⟩ := Table.mem_keys.mp hkey
      by_cases hlater : item.sourceBlockNumber < old.sourceBlockNumber
      · exact Or.inl ⟨old, hold, hkey, hlater⟩
      · have hrow : values item ∈ (t.saveSnapshot item).current :=
          mem_current_saveSnapshot.mpr (Or.inr (Or.inl ⟨old, hold, hkey, by
            rw [replaced, if_pos (not_lt.mp hlater)]⟩))
        obtain ⟨hcanonical, hstored | hfresh⟩ := hwritten hrow
        · -- the stored snapshot is no newer than the current one, so it is the current one
          obtain ⟨hmem, -, hmax⟩ := h.shown old hold
          have hle := hmax _ hstored hkey.symm hcanonical
          have hheight : old.sourceBlockNumber = (values item).sourceBlockNumber :=
            le_antisymm (not_lt.mp hlater) hle
          obtain rfl := Table.eq_of_key_eq hmem hstored (snapshotKey_eq_iff.mpr ⟨hkey, hheight⟩)
          exact Or.inr (Or.inr hold)
        · exact Or.inr (Or.inl ⟨hcanonical, hfresh⟩)
    · have hrow : values item ∈ (t.saveSnapshot item).current :=
        mem_current_saveSnapshot.mpr (Or.inr (Or.inr ⟨rfl, hkey⟩))
      obtain ⟨hcanonical, hstored | hfresh⟩ := hwritten hrow
      · exact absurd (h.present _ hstored hcanonical) hkey
      · exact Or.inr (Or.inl ⟨hcanonical, hfresh⟩)
  · rintro (⟨old, hold, hkey, hlater⟩ | ⟨hcanonical, hfresh⟩ | hcurrent)
    · exact newest_of_later h hold hkey hlater
    · exact newest_of_fresh h hcanonical hfresh
    · exact newest_of_repeated h hcurrent

/-! ## Marking -/

/-- **A reorg that keeps the current rows right**: no token whose current row
it takes has a canonical snapshot below the range. -/
def MarkKeeps (t : DiscoveryTables) (chainId fromBlock toBlock : ℕ) : Prop :=
  ∀ row ∈ t.current, affected chainId fromBlock toBlock row = true →
    ∀ s ∈ t.snapshots, s.currentKey = row.currentKey → s.canonical = true →
      fromBlock ≤ s.sourceBlockNumber

theorem affected_iff : affected chainId fromBlock toBlock x = true ↔
    x.chainId = chainId ∧ fromBlock ≤ x.sourceBlockNumber ∧ x.sourceBlockNumber ≤ toBlock := by
  simp [affected, and_assoc]

theorem mem_snapshots_markNonCanonical (hx : x.canonical = true) :
    x ∈ (t.markNonCanonical chainId fromBlock toBlock).snapshots ↔
      x ∈ t.snapshots ∧ affected chainId fromBlock toBlock x = false :=
  Table.mem_updateWhere_clear (f := fun row => { row with canonical := false })
    DiscoveryRow.canonical (fun _ => rfl) (fun _ => rfl) hx

theorem mem_current_markNonCanonical :
    x ∈ (t.markNonCanonical chainId fromBlock toBlock).current ↔
      x ∈ t.current ∧ affected chainId fromBlock toBlock x = false :=
  Table.mem_deleteWhere

theorem newest_markNonCanonical_iff (h : t.Newest) :
    (t.markNonCanonical chainId fromBlock toBlock).Newest ↔
      t.MarkKeeps chainId fromBlock toBlock := by
  constructor
  · intro hnext row hrow hin s hs hkey hcanonical
    by_contra hbelow
    have hout : affected chainId fromBlock toBlock s = false := by
      rw [Bool.eq_false_iff, Ne, affected_iff]
      omega
    have hpresent := hnext.present s ((mem_snapshots_markNonCanonical hcanonical).mpr ⟨hs, hout⟩)
      hcanonical
    obtain ⟨row', hrow', hkey'⟩ := Table.mem_keys.mp hpresent
    obtain ⟨hmem, hnot⟩ := mem_current_markNonCanonical.mp hrow'
    obtain rfl := Table.eq_of_key_eq hmem hrow (hkey'.trans hkey)
    rw [hin] at hnot
    cases hnot
  · intro hkeeps
    constructor
    · intro row hrow
      obtain ⟨hmem, hout⟩ := mem_current_markNonCanonical.mp hrow
      obtain ⟨hstored, hcanonical, hmax⟩ := h.shown row hmem
      refine ⟨(mem_snapshots_markNonCanonical hcanonical).mpr ⟨hstored, hout⟩, hcanonical,
        fun s hs hkey hsc => ?_⟩
      exact hmax s ((mem_snapshots_markNonCanonical hsc).mp hs).1 hkey hsc
    · intro s hs hsc
      obtain ⟨hstored, hout⟩ := (mem_snapshots_markNonCanonical hsc).mp hs
      obtain ⟨row, hrow, hkey⟩ := Table.mem_keys.mp (h.present s hstored hsc)
      refine Table.mem_keys.mpr ⟨row, mem_current_markNonCanonical.mpr ⟨hrow, ?_⟩, hkey⟩
      -- a row that is taken would take the snapshot with it
      by_contra hin
      rw [Bool.not_eq_false] at hin
      have hlow := hkeeps row hrow hin s hstored hkey.symm hsc
      have hhigh := (h.shown row hrow).2.2 s hstored hkey.symm hsc
      have hchain : row.chainId = s.chainId := congrArg Prod.fst hkey
      obtain ⟨hrowChain, -, hto⟩ := affected_iff.mp hin
      rw [affected_iff.mpr ⟨hchain.symm.trans hrowChain, hlow, hhigh.trans hto⟩] at hout
      cases hout

/-! ## Runs -/

/-- A call of the repository. -/
inductive Call
  | saveSnapshot (item : DiscoveryItem)
  | markNonCanonical (chainId fromBlock toBlock : ℕ)
deriving DecidableEq

/-- **The repository**: its calls in whatever order, from empty tables. -/
def repository : Machine DiscoveryTables Call where
  Init t := t = ⟨∅, ∅⟩
  step t call :=
    match call with
    | .saveSnapshot item => some (t.saveSnapshot item)
    | .markNonCanonical chainId fromBlock toBlock =>
      some (t.markNonCanonical chainId fromBlock toBlock)

/-- **A call that keeps the current rows right.** -/
def Keeps (t : DiscoveryTables) : Call → Prop
  | .saveSnapshot item => t.SaveKeeps item
  | .markNonCanonical chainId fromBlock toBlock => t.MarkKeeps chainId fromBlock toBlock

theorem newest_step_iff {t' : DiscoveryTables} {call : Call} (h : t.Newest)
    (hstep : repository.step t call = some t') : t'.Newest ↔ t.Keeps call := by
  cases call with
  | saveSnapshot item =>
    obtain rfl := Option.some.inj hstep
    exact newest_saveSnapshot_iff h
  | markNonCanonical chainId fromBlock toBlock =>
    obtain rfl := Option.some.inj hstep
    exact newest_markNonCanonical_iff h

/-- **When the current rows are right all along a run**: exactly where every
call keeps them right. -/
theorem newest_throughout_iff (calls : List Call) :
    repository.Throughout Newest ⟨∅, ∅⟩ calls ↔ repository.Meets Keeps ⟨∅, ∅⟩ calls := by
  refine Machine.throughout_iff_meets (I := fun _ => True) ?_ ?_ trivial ?_
  · intro t call _ _ hnone
    cases call <;> cases hnone
  · intro t call t' _ h hstep
    exact ⟨trivial, newest_step_iff h hstep⟩
  · exact ⟨fun row hrow => absurd hrow (Table.notMem_empty row),
      fun s hs => absurd hs (Table.notMem_empty s)⟩

/-! ## A reorg without a way back -/

/-- A canonical item of one token. -/
def itemAt (block : ℕ) : DiscoveryItem where
  chainId := 1
  address := ⟨7⟩
  methodologyVersion := "trending-v1"
  scoreBps := 5000
  confidenceBps := 5000
  sourceBlockNumber := block
  sourceBlockHash := ⟨block⟩
  canonical := true
  observedAt := block

/-- **The token is gone** although its snapshot before the reorg is canonical. -/
theorem not_newest_reorg : ¬ repository.Throughout Newest ⟨∅, ∅⟩
    [.saveSnapshot (itemAt 1), .saveSnapshot (itemAt 2), .markNonCanonical 1 2 2] := by
  intro h
  have hexec : repository.exec ⟨∅, ∅⟩ [.saveSnapshot (itemAt 1), .saveSnapshot (itemAt 2),
      .markNonCanonical 1 2 2] = some ((((⟨∅, ∅⟩ : DiscoveryTables).saveSnapshot
        (itemAt 1)).saveSnapshot (itemAt 2)).markNonCanonical 1 2 2) := rfl
  have hlast := h.of_exec hexec
  have hpresent := hlast.present (values (itemAt 1)) (by decide) rfl
  exact absurd hpresent (by decide)

end DiscoveryTables

end HoodSentry
