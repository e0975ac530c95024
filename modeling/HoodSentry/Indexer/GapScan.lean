import HoodSentry.Common.Sorting
import HoodSentry.Model.Schema
/-!
# The gap scanner

`apps/indexer/src/gap-scanner.ts`: the ranges of an interval no canonical
block is stored of, and the same blocks one by one. The rows are made a set
of their numbers, so the order they are read in decides nothing.
-/

namespace HoodSentry

namespace GapScanner

structure GapRange where
  chainId : ℕ
  fromBlock : ℤ
  toBlock : ℤ
deriving DecidableEq

variable (chainId : ℕ) (blocks : Table BlockRow.key) (fromBlock toBlock : ℤ)

/-- The numbers `for (blockNum = fromBlock; blockNum <= toBlock; ..)` goes
through. -/
def interval : List ℤ :=
  (List.range (toBlock + 1 - fromBlock).toNat).map fun i : ℕ => fromBlock + (i : ℤ)

/-- The rows both queries find, by their numbers. -/
def indexedBlocks : List ℤ :=
  (blocks.rows.filter fun row => row.chainId = chainId && fromBlock ≤ row.number &&
    row.number ≤ toBlock && row.canonical).map fun row => (row.number : ℤ)

/-- The state of the loop of `scanForGaps`. -/
structure Scan where
  gaps : List GapRange
  gapStart : Option ℤ
deriving DecidableEq

/-- One round of the loop. -/
def Scan.next (indexedNumbers : List ℤ) (scan : Scan) (blockNum : ℤ) : Scan :=
  if !indexedNumbers.contains blockNum then
    match scan.gapStart with
    | none => { scan with gapStart := some blockNum }
    | some _ => scan
  else
    match scan.gapStart with
    | some gapStart => ⟨scan.gaps ++ [⟨chainId, gapStart, blockNum - 1⟩], none⟩
    | none => scan

def scanForGaps : List GapRange :=
  let indexedNumbers := indexedBlocks chainId blocks fromBlock toBlock
  if indexedNumbers = [] then [⟨chainId, fromBlock, toBlock⟩]
  else
    let scan := (interval fromBlock toBlock).foldl (Scan.next chainId indexedNumbers) ⟨[], none⟩
    match scan.gapStart with
    | some gapStart => scan.gaps ++ [⟨chainId, gapStart, toBlock⟩]
    | none => scan.gaps

def getMissingBlocks : List ℤ :=
  let indexedNumbers := indexedBlocks chainId blocks fromBlock toBlock
  (interval fromBlock toBlock).filter fun blockNum => !indexedNumbers.contains blockNum

end GapScanner

end HoodSentry

/-!
## Gap scans

The scan of an interval gives the maximal runs of the heights no canonical
block is stored of, and the enumeration the same heights in order. An
interval that ends before it begins has no stored block either, and there the
scan gives the interval itself.
-/

namespace HoodSentry

namespace GapScanner

/-- A range holds a height. -/
def GapRange.Holds (gap : GapRange) (n : ℤ) : Prop := gap.fromBlock ≤ n ∧ n ≤ gap.toBlock

variable {chainId : ℕ} {blocks : Table BlockRow.key} {fromBlock toBlock n : ℤ}

/-! ## Exact scans -/

/-- A canonical block of the chain is stored at a height. -/
def Stored (chainId : ℕ) (blocks : Table BlockRow.key) (n : ℤ) : Prop :=
  ∃ row ∈ blocks, row.chainId = chainId ∧ (row.number : ℤ) = n ∧ row.canonical

/-- **The runs of the heights of an interval that satisfy a predicate**: in
ascending order, with a height between any two. -/
structure RunsOf (p : ℤ → Prop) (fromBlock toBlock : ℤ) (gaps : List GapRange) : Prop where
  nonempty : ∀ gap ∈ gaps, gap.fromBlock ≤ gap.toBlock
  inside : ∀ gap ∈ gaps, fromBlock ≤ gap.fromBlock ∧ gap.toBlock ≤ toBlock
  apart : gaps.Pairwise fun gap gap' => gap.toBlock + 1 < gap'.fromBlock
  union : ∀ n, (∃ gap ∈ gaps, gap.Holds n) ↔ fromBlock ≤ n ∧ n ≤ toBlock ∧ p n

/-- **An exact scan**: the gaps are the runs of the heights without a stored
block, all of the chain, and the missing blocks are these heights. -/
structure ExactScan (chainId : ℕ) (blocks : Table BlockRow.key) (fromBlock toBlock : ℤ) :
    Prop where
  runs : RunsOf (fun n => ¬Stored chainId blocks n) fromBlock toBlock
    (scanForGaps chainId blocks fromBlock toBlock)
  chain : ∀ gap ∈ scanForGaps chainId blocks fromBlock toBlock, gap.chainId = chainId
  ascending : (getMissingBlocks chainId blocks fromBlock toBlock).Pairwise (· < ·)
  missing : ∀ n, n ∈ getMissingBlocks chainId blocks fromBlock toBlock ↔
    ∃ gap ∈ scanForGaps chainId blocks fromBlock toBlock, gap.Holds n

/-! ## Intervals -/

theorem mem_interval : n ∈ interval fromBlock toBlock ↔ fromBlock ≤ n ∧ n ≤ toBlock := by
  simp only [interval, List.mem_map, List.mem_range]
  constructor
  · rintro ⟨i, hi, rfl⟩
    omega
  · intro h
    exact ⟨(n - fromBlock).toNat, by omega, by omega⟩

theorem pairwise_interval : (interval fromBlock toBlock).Pairwise (· < ·) := by
  rw [interval, List.pairwise_map]
  refine List.Pairwise.imp (fun h => ?_) List.pairwise_lt_range
  omega

/-- An interval that ends before it begins is empty. -/
theorem interval_of_lt (h : toBlock < fromBlock) : interval fromBlock toBlock = [] := by
  refine List.eq_nil_iff_forall_not_mem.mpr fun n hn => ?_
  have hbounds := mem_interval.mp hn
  omega

/-- One height more. -/
theorem interval_succ (h : fromBlock ≤ n) :
    interval fromBlock n = interval fromBlock (n - 1) ++ [n] := by
  have hcount : (n + 1 - fromBlock).toNat = (n - 1 + 1 - fromBlock).toNat + 1 := by omega
  rw [interval, hcount, List.range_succ, List.map_append, List.map_singleton]
  have hlast : fromBlock + ((n - 1 + 1 - fromBlock).toNat : ℤ) = n := by omega
  rw [hlast]
  rfl

/-- The numbers read are those of the stored heights of the interval. -/
theorem mem_indexedBlocks : n ∈ indexedBlocks chainId blocks fromBlock toBlock ↔
    fromBlock ≤ n ∧ n ≤ toBlock ∧ Stored chainId blocks n := by
  simp only [indexedBlocks, List.mem_map, List.mem_filter, Bool.and_eq_true, decide_eq_true_eq,
    Stored]
  constructor
  · rintro ⟨row, ⟨hrow, ⟨⟨hchain, hfrom⟩, hto⟩, hcanonical⟩, rfl⟩
    exact ⟨hfrom, hto, row, hrow, hchain, rfl, hcanonical⟩
  · rintro ⟨hfrom, hto, row, hrow, hchain, rfl, hcanonical⟩
    exact ⟨row, ⟨hrow, ⟨⟨hchain, hfrom⟩, hto⟩, hcanonical⟩, rfl⟩

/-! ## The scan -/

/-- **What the loop has found** before it comes to a height: the runs that
have ended, with a stored height behind each, and the run it is in. -/
structure ScanInvariant (chainId : ℕ) (numbers : List ℤ) (fromBlock n : ℤ) (scan : Scan) :
    Prop where
  gaps : ∀ gap ∈ scan.gaps, gap.chainId = chainId ∧ fromBlock ≤ gap.fromBlock ∧
    gap.fromBlock ≤ gap.toBlock ∧ gap.toBlock + 1 < n ∧ gap.toBlock + 1 ∈ numbers
  apart : scan.gaps.Pairwise fun gap gap' => gap.toBlock + 1 < gap'.fromBlock
  started : ∀ start ∈ scan.gapStart, fromBlock ≤ start ∧ start < n ∧
    ∀ gap ∈ scan.gaps, gap.toBlock + 1 < start
  covered : ∀ m, fromBlock ≤ m → m < n →
    (m ∉ numbers ↔ (∃ gap ∈ scan.gaps, gap.Holds m) ∨ ∃ start ∈ scan.gapStart, start ≤ m)

/-- **The step lemma.** -/
theorem ScanInvariant.next {numbers : List ℤ} {scan : Scan}
    (h : ScanInvariant chainId numbers fromBlock n scan) (hn : fromBlock ≤ n) :
    ScanInvariant chainId numbers fromBlock (n + 1) (scan.next chainId numbers n) := by
  unfold Scan.next
  -- no run that has ended holds the height the loop comes to
  have hnot : ¬∃ gap ∈ scan.gaps, gap.Holds n := by
    rintro ⟨gap, hgap, -, hto⟩
    have hbefore := (h.gaps gap hgap).2.2.2.1
    omega
  have hgaps : ∀ gap ∈ scan.gaps, gap.chainId = chainId ∧ fromBlock ≤ gap.fromBlock ∧
      gap.fromBlock ≤ gap.toBlock ∧ gap.toBlock + 1 < n + 1 ∧ gap.toBlock + 1 ∈ numbers := by
    intro gap hgap
    obtain ⟨hchain, hfrom, hle, hbefore, hstored⟩ := h.gaps gap hgap
    exact ⟨hchain, hfrom, hle, by omega, hstored⟩
  by_cases hmem : n ∈ numbers
  · rw [if_neg (by simpa using hmem)]
    cases hstart : scan.gapStart with
    | none =>
      refine ⟨hgaps, h.apart, fun start hs => ?_, fun m hfrom hm => ?_⟩
      · rw [hstart] at hs
        exact absurd hs (Option.not_mem_none start)
      · rcases (show m < n ∨ m = n by omega) with hlt | rfl
        · exact h.covered m hfrom hlt
        · refine iff_of_false (fun hnone => hnone hmem) ?_
          rintro (hgap | ⟨start, hs, -⟩)
          · exact hnot hgap
          · rw [hstart] at hs
            exact absurd hs (Option.not_mem_none start)
    | some start =>
      obtain ⟨hfrom, hlt, hafter⟩ := h.started start hstart
      refine ⟨fun gap hgap => ?_, ?_, fun s hs => absurd hs (Option.not_mem_none s),
        fun m hm hmn => ?_⟩
      · rcases List.mem_append.mp hgap with hgap | hgap
        · exact hgaps gap hgap
        · obtain rfl := List.mem_singleton.mp hgap
          exact ⟨rfl, hfrom, by dsimp only; omega, by dsimp only; omega, by
            rw [Int.sub_add_cancel]
            exact hmem⟩
      · rw [List.pairwise_append]
        refine ⟨h.apart, List.pairwise_singleton _ _, fun gap hgap gap' hgap' => ?_⟩
        obtain rfl := List.mem_singleton.mp hgap'
        exact hafter gap hgap
      · have hlist : (∃ gap ∈ scan.gaps ++ [⟨chainId, start, n - 1⟩], gap.Holds m) ↔
            (∃ gap ∈ scan.gaps, gap.Holds m) ∨ (start ≤ m ∧ m ≤ n - 1) := by
          simp only [List.mem_append, List.mem_singleton, or_and_right, exists_or,
            exists_eq_left, GapRange.Holds]
        simp only [hlist, Option.not_mem_none, false_and, exists_false, or_false]
        rcases (show m < n ∨ m = n by omega) with hlt' | rfl
        · rw [h.covered m hm hlt', hstart]
          simp only [Option.mem_def, Option.some.injEq, exists_eq_left']
          have hle : m ≤ n - 1 := by omega
          simp only [hle, and_true]
        · refine iff_of_false (fun hnone => hnone hmem) ?_
          rintro (hgap | hrange)
          · exact hnot hgap
          · omega
  · rw [if_pos (by simpa using hmem)]
    cases hstart : scan.gapStart with
    | none =>
      refine ⟨hgaps, h.apart, fun start hs => ?_, fun m hfrom hm => ?_⟩
      · obtain rfl := Option.some.inj hs
        refine ⟨hn, by omega, fun gap hgap => ?_⟩
        exact (h.gaps gap hgap).2.2.2.1
      · simp only [Option.mem_def, Option.some.injEq, exists_eq_left']
        rcases (show m < n ∨ m = n by omega) with hlt | rfl
        · rw [h.covered m hfrom hlt, hstart]
          have hbefore : ¬n ≤ m := by omega
          simp only [Option.mem_def, reduceCtorEq, false_and, exists_false, hbefore]
        · exact iff_of_true hmem (Or.inr le_rfl)
    | some start =>
      obtain ⟨hfrom, hlt, hafter⟩ := h.started start hstart
      refine ⟨hgaps, h.apart, fun s hs => ?_, fun m hm hmn => ?_⟩
      · obtain rfl : start = s := Option.some.inj (hstart.symm.trans hs)
        exact ⟨hfrom, by omega, hafter⟩
      · rcases (show m < n ∨ m = n by omega) with hlt' | rfl
        · exact h.covered m hm hlt'
        · exact iff_of_true hmem (Or.inr ⟨start, hstart, hlt.le⟩)

/-- **The run lemma.** The induction is on the number of heights. -/
theorem scanInvariant_interval (chainId : ℕ) (numbers : List ℤ) (fromBlock : ℤ) (count : ℕ) :
    ScanInvariant chainId numbers fromBlock (fromBlock + count)
      ((interval fromBlock (fromBlock + count - 1)).foldl (Scan.next chainId numbers)
        ⟨[], none⟩) := by
  induction count with
  | zero =>
    rw [interval_of_lt (by omega)]
    refine ⟨fun gap hgap => absurd hgap List.not_mem_nil, List.Pairwise.nil,
      fun start hs => absurd hs (Option.not_mem_none start), fun m hm hlt => ?_⟩
    omega
  | succ count ih =>
    have hlast : fromBlock + ((count + 1 : ℕ) : ℤ) - 1 = fromBlock + count := by omega
    have hnext : fromBlock + ((count + 1 : ℕ) : ℤ) = fromBlock + count + 1 := by omega
    rw [hlast, hnext, interval_succ (by omega), List.foldl_append, List.foldl_cons, List.foldl_nil]
    exact ih.next (by omega)

/-! ## What is returned -/

/-- **The runs of an interval** in which some height is stored. -/
theorem runsOf_scan {numbers : List ℤ} (hle : fromBlock ≤ toBlock) :
    let scan := (interval fromBlock toBlock).foldl (Scan.next chainId numbers) ⟨[], none⟩
    let gaps := match scan.gapStart with
      | some gapStart => scan.gaps ++ [⟨chainId, gapStart, toBlock⟩]
      | none => scan.gaps
    RunsOf (fun n => n ∉ numbers) fromBlock toBlock gaps ∧ ∀ gap ∈ gaps, gap.chainId = chainId := by
  have hrun := scanInvariant_interval chainId numbers fromBlock (toBlock + 1 - fromBlock).toNat
  have hend : fromBlock + ((toBlock + 1 - fromBlock).toNat : ℤ) = toBlock + 1 := by omega
  rw [hend, Int.add_sub_cancel] at hrun
  intro scan gaps
  have hinside : ∀ gap ∈ scan.gaps, gap.fromBlock ≤ gap.toBlock ∧ fromBlock ≤ gap.fromBlock ∧
      gap.toBlock ≤ toBlock := by
    intro gap hgap
    obtain ⟨-, hfrom, hrange, hbefore, -⟩ := hrun.gaps gap hgap
    exact ⟨hrange, hfrom, by omega⟩
  have hcovered : ∀ n, fromBlock ≤ n → n ≤ toBlock → (n ∉ numbers ↔
      (∃ gap ∈ scan.gaps, gap.Holds n) ∨ ∃ start ∈ scan.gapStart, start ≤ n) := fun n hfrom hto =>
    hrun.covered n hfrom (by omega)
  cases hstart : scan.gapStart with
  | none =>
    have hgaps : gaps = scan.gaps := by simp only [gaps, hstart]
    rw [hgaps]
    refine ⟨⟨fun gap hgap => (hinside gap hgap).1, fun gap hgap => (hinside gap hgap).2,
      hrun.apart, fun n => ⟨?_, ?_⟩⟩, fun gap hgap => (hrun.gaps gap hgap).1⟩
    · rintro ⟨gap, hgap, hfrom, hto⟩
      obtain ⟨-, hlow, hhigh⟩ := hinside gap hgap
      exact ⟨by omega, by omega, (hcovered n (by omega) (by omega)).mpr
        (Or.inl ⟨gap, hgap, hfrom, hto⟩)⟩
    · rintro ⟨hfrom, hto, hn⟩
      rcases (hcovered n hfrom hto).mp hn with hgap | ⟨start, hs, -⟩
      · exact hgap
      · rw [hstart] at hs
        exact absurd hs (Option.not_mem_none start)
  | some start =>
    have hgaps : gaps = scan.gaps ++ [⟨chainId, start, toBlock⟩] := by simp only [gaps, hstart]
    obtain ⟨hfrom', hlt, hafter⟩ := hrun.started start hstart
    rw [hgaps]
    refine ⟨⟨fun gap hgap => ?_, fun gap hgap => ?_, ?_, fun n => ⟨?_, ?_⟩⟩, fun gap hgap => ?_⟩
    · rcases List.mem_append.mp hgap with hgap | hgap
      · exact (hinside gap hgap).1
      · obtain rfl := List.mem_singleton.mp hgap
        dsimp only
        omega
    · rcases List.mem_append.mp hgap with hgap | hgap
      · exact (hinside gap hgap).2
      · obtain rfl := List.mem_singleton.mp hgap
        exact ⟨hfrom', le_rfl⟩
    · rw [List.pairwise_append]
      refine ⟨hrun.apart, List.pairwise_singleton _ _, fun gap hgap gap' hgap' => ?_⟩
      obtain rfl := List.mem_singleton.mp hgap'
      exact hafter gap hgap
    · rintro ⟨gap, hgap, hfrom, hto⟩
      rcases List.mem_append.mp hgap with hgap | hgap
      · obtain ⟨-, hlow, hhigh⟩ := hinside gap hgap
        exact ⟨by omega, by omega, (hcovered n (by omega) (by omega)).mpr
          (Or.inl ⟨gap, hgap, hfrom, hto⟩)⟩
      · obtain rfl := List.mem_singleton.mp hgap
        dsimp only at hfrom hto
        exact ⟨by omega, hto, (hcovered n (by omega) hto).mpr (Or.inr ⟨start, hstart, hfrom⟩)⟩
    · rintro ⟨hfrom, hto, hn⟩
      rcases (hcovered n hfrom hto).mp hn with ⟨gap, hgap, hin⟩ | ⟨s, hs, hle'⟩
      · exact ⟨gap, List.mem_append_left _ hgap, hin⟩
      · obtain rfl : start = s := Option.some.inj (hstart.symm.trans hs)
        exact ⟨_, List.mem_append_right _ List.mem_cons_self, hle', hto⟩
    · rcases List.mem_append.mp hgap with hgap | hgap
      · exact (hrun.gaps gap hgap).1
      · obtain rfl := List.mem_singleton.mp hgap
        rfl

/-- Runs are those of any predicate that agrees on the interval. -/
theorem RunsOf.congr {p q : ℤ → Prop} {gaps : List GapRange} (h : RunsOf p fromBlock toBlock gaps)
    (hpq : ∀ n, fromBlock ≤ n → n ≤ toBlock → (p n ↔ q n)) : RunsOf q fromBlock toBlock gaps where
  nonempty := h.nonempty
  inside := h.inside
  apart := h.apart
  union n := by
    rw [h.union n]
    constructor
    · rintro ⟨hfrom, hto, hn⟩
      exact ⟨hfrom, hto, (hpq n hfrom hto).mp hn⟩
    · rintro ⟨hfrom, hto, hn⟩
      exact ⟨hfrom, hto, (hpq n hfrom hto).mpr hn⟩

/-- In an interval of one height at least, the gaps are the runs. -/
theorem runsOf_scanForGaps (hle : fromBlock ≤ toBlock) :
    RunsOf (fun n => ¬Stored chainId blocks n) fromBlock toBlock
        (scanForGaps chainId blocks fromBlock toBlock) ∧
      ∀ gap ∈ scanForGaps chainId blocks fromBlock toBlock, gap.chainId = chainId := by
  have hagree : ∀ n, fromBlock ≤ n → n ≤ toBlock →
      (n ∉ indexedBlocks chainId blocks fromBlock toBlock ↔ ¬Stored chainId blocks n) := by
    intro n hfrom hto
    rw [mem_indexedBlocks]
    exact not_congr ⟨fun h => h.2.2, fun h => ⟨hfrom, hto, h⟩⟩
  rw [scanForGaps]
  split
  · rename_i hempty
    refine ⟨⟨?_, ?_, List.pairwise_singleton _ _, fun n => ⟨?_, ?_⟩⟩, ?_⟩
    · intro gap hgap
      obtain rfl := List.mem_singleton.mp hgap
      exact hle
    · intro gap hgap
      obtain rfl := List.mem_singleton.mp hgap
      exact ⟨le_rfl, le_rfl⟩
    · rintro ⟨gap, hgap, hfrom, hto⟩
      obtain rfl := List.mem_singleton.mp hgap
      refine ⟨hfrom, hto, (hagree n hfrom hto).mp ?_⟩
      rw [hempty]
      exact List.not_mem_nil
    · rintro ⟨hfrom, hto, -⟩
      exact ⟨_, List.mem_singleton_self _, hfrom, hto⟩
    · intro gap hgap
      obtain rfl := List.mem_singleton.mp hgap
      rfl
  · obtain ⟨hruns, hchain⟩ := @runsOf_scan chainId fromBlock toBlock
      (indexedBlocks chainId blocks fromBlock toBlock) hle
    exact ⟨hruns.congr hagree, hchain⟩

/-- The missing blocks are the heights of the interval without a stored block. -/
theorem mem_getMissingBlocks : n ∈ getMissingBlocks chainId blocks fromBlock toBlock ↔
    fromBlock ≤ n ∧ n ≤ toBlock ∧ ¬Stored chainId blocks n := by
  simp only [getMissingBlocks, List.mem_filter, mem_interval, Bool.not_eq_true',
    List.contains_eq_mem, decide_eq_false_iff_not, mem_indexedBlocks]
  constructor
  · rintro ⟨⟨hfrom, hto⟩, hn⟩
    exact ⟨hfrom, hto, fun hstored => hn ⟨hfrom, hto, hstored⟩⟩
  · rintro ⟨hfrom, hto, hn⟩
    exact ⟨⟨hfrom, hto⟩, fun h => hn h.2.2⟩

/-- The scan of an interval that ends before it begins is that interval. -/
theorem scanForGaps_of_lt (h : toBlock < fromBlock) :
    scanForGaps chainId blocks fromBlock toBlock = [⟨chainId, fromBlock, toBlock⟩] := by
  have hempty : indexedBlocks chainId blocks fromBlock toBlock = [] := by
    refine List.eq_nil_iff_forall_not_mem.mpr fun n hn => ?_
    have hbounds := mem_indexedBlocks.mp hn
    omega
  rw [scanForGaps, if_pos hempty]

/-- **A scan is exact** exactly of an interval with a height in it. -/
theorem exactScan_iff (chainId : ℕ) (blocks : Table BlockRow.key) (fromBlock toBlock : ℤ) :
    ExactScan chainId blocks fromBlock toBlock ↔ fromBlock ≤ toBlock := by
  constructor
  · intro h
    by_contra hlt
    have hgap : ⟨chainId, fromBlock, toBlock⟩ ∈ scanForGaps chainId blocks fromBlock toBlock := by
      rw [scanForGaps_of_lt (by omega)]
      exact List.mem_singleton_self _
    exact hlt (h.runs.nonempty _ hgap)
  · intro hle
    obtain ⟨hruns, hchain⟩ := @runsOf_scanForGaps chainId blocks fromBlock toBlock hle
    refine ⟨hruns, hchain, pairwise_interval.filter _, fun n => ?_⟩
    rw [mem_getMissingBlocks, hruns.union n]

/-- **A scan from 5 to 4** finds the gap from 5 to 4, and no block missing. -/
theorem not_exactScan_reversed : ¬ExactScan 1 ∅ 5 4 ∧
    scanForGaps 1 ∅ 5 4 = [⟨1, 5, 4⟩] ∧ getMissingBlocks 1 ∅ 5 4 = [] := by
  refine ⟨fun h => ?_, by decide, by decide⟩
  have hle := h.runs.nonempty ⟨1, 5, 4⟩ (by decide)
  exact absurd hle (by decide)

end GapScanner

end HoodSentry

/-!
## Statistics and the largest gaps

`getGapStats` counts rows, not heights, so it is exact where no height has two
canonical rows. `getLargestGaps` sorts the gaps below the highest block
stored, canonical or not.
-/

namespace HoodSentry

namespace GapScanner

structure GapStats where
  totalBlocks : ℤ
  indexedBlocks : ℕ
  missingBlocks : ℤ
  gapPercentage : ℚ
deriving DecidableEq

section Queries

variable (chainId : ℕ) (blocks : Table BlockRow.key) (fromBlock toBlock : ℤ) (limit : ℕ)

def getGapStats : GapStats :=
  let totalBlocks := toBlock - fromBlock + 1
  let indexedCount := (indexedBlocks chainId blocks fromBlock toBlock).length
  let missingBlocks := totalBlocks - indexedCount
  { totalBlocks := totalBlocks
    indexedBlocks := indexedCount
    missingBlocks := missingBlocks
    gapPercentage := if totalBlocks > 0 then (missingBlocks : ℚ) / totalBlocks * 100 else 0 }

/-- The highest block of the chain, canonical or not. -/
def getLatestIndexedBlock : ℤ :=
  (((blocks.rows.filter fun row => row.chainId = chainId).map fun row =>
    (row.number : ℤ)).insertionSort (· ≥ ·)).head?.getD 0

def GapRange.size (gap : GapRange) : ℤ := gap.toBlock - gap.fromBlock + 1

def getLargestGaps : List GapRange :=
  ((scanForGaps chainId blocks 0 (getLatestIndexedBlock chainId blocks)).insertionSort
    fun a b => b.size ≤ a.size).take limit

end Queries

variable {chainId : ℕ} {blocks : Table BlockRow.key} {fromBlock toBlock : ℤ}

theorem length_interval (h : fromBlock ≤ toBlock + 1) :
    ((interval fromBlock toBlock).length : ℤ) = toBlock - fromBlock + 1 := by
  rw [interval, List.length_map, List.length_range]
  omega

/-- The heights of an interval are those indexed and those missing. -/
theorem length_getMissingBlocks (h : fromBlock ≤ toBlock + 1) :
    ((indexedBlocks chainId blocks fromBlock toBlock).dedup.length : ℤ) +
      (getMissingBlocks chainId blocks fromBlock toBlock).length = toBlock - fromBlock + 1 := by
  have hperm : (indexedBlocks chainId blocks fromBlock toBlock).dedup.Perm
      ((interval fromBlock toBlock).filter fun n =>
        (indexedBlocks chainId blocks fromBlock toBlock).contains n) := by
    refine (List.perm_ext_iff_of_nodup (List.nodup_dedup _)
      (pairwise_interval.imp ne_of_lt |>.filter _)).mpr fun n => ?_
    simp only [List.mem_dedup, List.mem_filter, mem_interval, List.contains_eq_mem,
      decide_eq_true_eq]
    refine ⟨fun hn => ⟨?_, hn⟩, fun hn => hn.2⟩
    obtain ⟨hfrom, hto, -⟩ := mem_indexedBlocks.mp hn
    exact ⟨hfrom, hto⟩
  have hsplit := List.length_eq_length_filter_add (l := interval fromBlock toBlock) fun n =>
    (indexedBlocks chainId blocks fromBlock toBlock).contains n
  rw [← length_interval h, hsplit, ← hperm.length_eq]
  rfl

/-- **The count of missing blocks is right** exactly where no height of the
interval has two canonical rows; else it is too low. -/
theorem missingBlocks_eq_iff (h : fromBlock ≤ toBlock + 1) :
    ((getGapStats chainId blocks fromBlock toBlock).missingBlocks =
        (getMissingBlocks chainId blocks fromBlock toBlock).length ↔
      (indexedBlocks chainId blocks fromBlock toBlock).Nodup) ∧
    (getGapStats chainId blocks fromBlock toBlock).missingBlocks ≤
      (getMissingBlocks chainId blocks fromBlock toBlock).length := by
  have hcount := @length_getMissingBlocks chainId blocks fromBlock toBlock h
  have hle := (List.dedup_sublist (indexedBlocks chainId blocks fromBlock toBlock)).length_le
  have hmissing : (getGapStats chainId blocks fromBlock toBlock).missingBlocks =
      toBlock - fromBlock + 1 - (indexedBlocks chainId blocks fromBlock toBlock).length := rfl
  rw [hmissing]
  refine ⟨⟨fun heq => ?_, fun hnodup => ?_⟩, by omega⟩
  · have hsame := (List.dedup_sublist
      (indexedBlocks chainId blocks fromBlock toBlock)).eq_of_length (by omega)
    rw [← hsame]
    exact List.nodup_dedup _
  · rw [hnodup.dedup] at hcount
    omega

/-- One canonical block in three heights. -/
theorem missingBlocks_eq_iff_single :
    ((getGapStats 1 (.singleton ⟨1, 5, ⟨5⟩, ⟨4⟩, 0, .finalized, true⟩) 4 6).missingBlocks =
        (getMissingBlocks 1 (.singleton ⟨1, 5, ⟨5⟩, ⟨4⟩, 0, .finalized, true⟩) 4 6).length ↔
      (indexedBlocks 1 (.singleton ⟨1, 5, ⟨5⟩, ⟨4⟩, 0, .finalized, true⟩) 4 6).Nodup) ∧
    (getGapStats 1 (.singleton ⟨1, 5, ⟨5⟩, ⟨4⟩, 0, .finalized, true⟩) 4 6).missingBlocks ≤
      (getMissingBlocks 1 (.singleton ⟨1, 5, ⟨5⟩, ⟨4⟩, 0, .finalized, true⟩) 4 6).length :=
  missingBlocks_eq_iff (by decide)

/-- **The largest gaps** up to the highest block: some of the gaps of the
scan, the larger ones first and the lower of two alike, and none left out
before one of them. -/
theorem getLargestGaps_spec (chainId : ℕ) (blocks : Table BlockRow.key) (limit : ℕ) :
    let gaps := scanForGaps chainId blocks 0 (getLatestIndexedBlock chainId blocks)
    let largest := getLargestGaps chainId blocks limit
    let ahead := fun gap gap' : GapRange =>
      gap'.size ≤ gap.size ∧ (gap.size = gap'.size → gap.toBlock + 1 < gap'.fromBlock)
    largest.length = min limit gaps.length ∧ largest.Pairwise ahead ∧
      (∀ gap ∈ largest, gap ∈ gaps) ∧
      ∀ gap ∈ gaps, gap ∉ largest → ∀ gap' ∈ largest, ahead gap' gap := by
  intro gaps largest ahead
  have hlatest : (0 : ℤ) ≤ getLatestIndexedBlock chainId blocks := by
    unfold getLatestIndexedBlock
    cases h : ((((blocks.rows.filter fun row => row.chainId = chainId).map fun row =>
      (row.number : ℤ)).insertionSort (· ≥ ·)).head?) with
    | none => exact le_rfl
    | some n =>
      obtain ⟨row, -, rfl⟩ := List.mem_map.mp (forall_of_head?_insertionSort h).1
      exact Int.natCast_nonneg _
  have hsorted := pairwise_insertionSort_stable (r := fun a b : GapRange => b.size ≤ a.size)
    (@runsOf_scanForGaps chainId blocks 0 _ hlatest).1.apart
  have hahead : (gaps.insertionSort fun a b => b.size ≤ a.size).Pairwise ahead :=
    hsorted.imp fun h => ⟨h.1, fun hsize => h.2 hsize.le⟩
  have hperm := List.perm_insertionSort (fun a b : GapRange => b.size ≤ a.size) gaps
  refine ⟨?_, hahead.sublist (List.take_sublist _ _), fun gap hgap => ?_,
    fun gap hgap hnot gap' hgap' => ?_⟩
  · rw [← hperm.length_eq]
    exact List.length_take
  · exact hperm.mem_iff.mp (List.mem_of_mem_take hgap)
  · have hmem := hperm.mem_iff.mpr hgap
    rw [← List.take_append_drop limit (gaps.insertionSort _)] at hmem hahead
    have hdrop := (List.mem_append.mp hmem).resolve_left hnot
    exact (List.pairwise_append.mp hahead).2.2 gap' hgap' gap hdrop

end GapScanner

end HoodSentry
