import HoodSentry.Discovery.OrphanedTrades
/-!
# Circular volume

The detector reports the wallets of every closed walk of three trades. Such a
walk is a cycle of three wallets unless a wallet on it traded with itself: it
then runs through that wallet, or through it and one that it traded with both
ways. So the wallets reported are those on cycles of three, and the signal is
observed where there is such a cycle, exactly if the wallets of the other walks
lie on cycles of three as well (`circular_iff`).
-/

namespace HoodSentry

namespace Discovery

variable {p : Platform} {trades : List DiscoveryTrade} {trade : DiscoveryTrade}
variable {u v x y z : List Char} {a : AddressText}

/-! ## The graph of the trades -/

/-- A trade leads from one wallet to another. -/
def Leads (trade : DiscoveryTrade) (u v : List Char) : Prop :=
  trade.traderAddress.lower = u ∧ ∃ c ∈ trade.counterpartyAddress, c.lower = v

/-- **The directed graph of the canonical trades**, by lower-cased addresses. -/
def Edge (trades : List DiscoveryTrade) (u v : List Char) : Prop :=
  ∃ trade ∈ trades, trade.canonical = true ∧ Leads trade u v

/-- A wallet on a closed walk of three trades. -/
def OnClosedWalk (trades : List DiscoveryTrade) (x : List Char) : Prop :=
  ∃ y z, Edge trades x y ∧ Edge trades y z ∧ Edge trades z x

/-- **A wallet on a cycle of three**: pairwise distinct ones. -/
def OnCycle (trades : List DiscoveryTrade) (x : List Char) : Prop :=
  ∃ y z, x ≠ y ∧ y ≠ z ∧ x ≠ z ∧ Edge trades x y ∧ Edge trades y z ∧ Edge trades z x

/-- **A wallet by a self-trade**: one that traded with itself, or that traded
both ways with one that did. -/
def BySelfTrade (trades : List DiscoveryTrade) (x : List Char) : Prop :=
  Edge trades x x ∨ ∃ y, Edge trades y y ∧ Edge trades x y ∧ Edge trades y x

theorem onClosedWalk_iff :
    OnClosedWalk trades x ↔ OnCycle trades x ∨ BySelfTrade trades x := by
  constructor
  · rintro ⟨y, z, hxy, hyz, hzx⟩
    by_cases h1 : x = y
    · subst h1
      exact Or.inr (Or.inl hxy)
    by_cases h2 : y = z
    · subst h2
      exact Or.inr (Or.inr ⟨y, hyz, hxy, hzx⟩)
    by_cases h3 : x = z
    · subst h3
      exact Or.inr (Or.inl hzx)
    · exact Or.inl ⟨y, z, h1, h2, h3, hxy, hyz, hzx⟩
  · rintro (⟨y, z, -, -, -, hxy, hyz, hzx⟩ | hself | ⟨y, hself, hxy, hyx⟩)
    · exact ⟨y, z, hxy, hyz, hzx⟩
    · exact ⟨x, x, hself, hself, hself⟩
    · exact ⟨y, y, hxy, hself, hyx⟩

/-- The others of a cycle are on it. -/
theorem onCycle_rotate (hxy : x ≠ y) (hyz : y ≠ z) (hxz : x ≠ z) (h1 : Edge trades x y)
    (h2 : Edge trades y z) (h3 : Edge trades z x) : OnCycle trades y ∧ OnCycle trades z :=
  ⟨⟨z, x, hyz, hxz.symm, hxy.symm, h2, h3, h1⟩, ⟨x, y, hxz.symm, hxy, hyz.symm, h3, h1, h2⟩⟩

/-! ## What the detector reads -/

theorem mem_canonicalTrades :
    trade ∈ canonicalTrades trades ↔ trade ∈ trades ∧ trade.canonical = true := by
  rw [canonicalTrades, List.mem_insertionSort, List.mem_filter]

/-- The targets of a wallet. -/
def targets (edges : TradeEdges) (u : List Char) : OrderedSet (List Char) :=
  (edges.get? u).getD ∅

theorem mem_targets_set {edges : TradeEdges} {s t : List Char} :
    v ∈ targets (edges.set s ((targets edges s).add t)) u ↔
      v ∈ targets edges u ∨ (s = u ∧ t = v) := by
  unfold targets
  rw [OrderedMap.get?_set]
  by_cases hu : u = s
  · subst hu
    rw [if_pos rfl, Option.getD_some, OrderedSet.mem_add]
    simp only [true_and, eq_comm]
  · rw [if_neg hu]
    simp only [Ne.symm hu, false_and, or_false]

/-- **The map of edges is the graph.** -/
theorem mem_targets : v ∈ targets (tradeEdges (canonicalTrades trades)) u ↔ Edge trades u v := by
  have hfold : v ∈ targets (tradeEdges (canonicalTrades trades)) u ↔
      v ∈ targets ∅ u ∨ ∃ trade ∈ canonicalTrades trades, Leads trade u v := by
    refine OrderedSet.mem_foldl_of_step (f := fun edges => targets edges u)
      (P := fun trade v => Leads trade u v) fun edges trade _ v => ?_
    dsimp only
    unfold Leads
    cases hcounterparty : trade.counterpartyAddress with
    | none => simp
    | some counterparty =>
      simp only [Option.mem_def, Option.some.injEq, exists_eq_left']
      exact mem_targets_set
  rw [hfold]
  constructor
  · rintro (h | ⟨trade, htrade, hleads⟩)
    · exact absurd h (Table.notMem_empty v)
    · obtain ⟨hmem, hcanonical⟩ := mem_canonicalTrades.mp htrade
      exact ⟨trade, hmem, hcanonical, hleads⟩
  · rintro ⟨trade, hmem, hcanonical, hleads⟩
    exact Or.inr ⟨trade, mem_canonicalTrades.mpr ⟨hmem, hcanonical⟩, hleads⟩

theorem has_targets {edges : TradeEdges} :
    (edges.get? u).any (·.has v) = true ↔ v ∈ targets edges u := by
  unfold targets
  cases edges.get? u with
  | none => simp
  | some set => simp [OrderedSet.has]

/-- The wallets of a walk that is found. -/
theorem mem_addWallets {evidence : MutableEvidence} {first second third : AddressText} :
    a ∈ (((evidence.addWallet first).addWallet second).addWallet third).wallets ↔
      a ∈ evidence.wallets ∨ a = first ∨ a = second ∨ a = third := by
  simp only [MutableEvidence.addWallet, OrderedSet.mem_add, or_assoc]

/-- What the inner loop adds: the wallets of the walks through two. -/
def AddsWalks (p : Platform) (edges : TradeEdges) (first second : List Char) (a : AddressText) :
    Prop :=
  ∃ third ∈ targets edges second, first ∈ targets edges third ∧
    (a = p.getAddress first ∨ a = p.getAddress second ∨ a = p.getAddress third)

theorem mem_innerLoop {edges : TradeEdges} {evidence : MutableEvidence}
    {first second : List Char} :
    a ∈ (((edges.get? second).getD ∅).rows.foldl (fun evidence third =>
        if (edges.get? third).any (·.has first) then
          ((evidence.addWallet (p.getAddress first)).addWallet (p.getAddress second)).addWallet
            (p.getAddress third)
        else evidence) evidence).wallets ↔
      a ∈ evidence.wallets ∨ AddsWalks p edges first second a := by
  refine OrderedSet.mem_foldl_of_step (f := MutableEvidence.wallets)
    (P := fun third a => first ∈ targets edges third ∧
      (a = p.getAddress first ∨ a = p.getAddress second ∨ a = p.getAddress third))
    fun evidence third _ a => ?_
  by_cases hback : first ∈ targets edges third
  · rw [if_pos (has_targets.mpr hback), mem_addWallets]
    simp only [hback, true_and]
  · rw [if_neg (mt has_targets.mp hback)]
    simp only [hback, false_and, or_false]

/-- **What the three loops leave**: the wallets of the closed walks. -/
theorem mem_circularEvidence :
    a ∈ (circularEvidence p (canonicalTrades trades)).wallets ↔
      ∃ x, OnClosedWalk trades x ∧ a = p.getAddress x := by
  set edges := tradeEdges (canonicalTrades trades) with hedges
  have hedge : ∀ {u v}, v ∈ targets edges u ↔ Edge trades u v := fun {u v} => mem_targets
  have hloops : a ∈ (circularEvidence p (canonicalTrades trades)).wallets ↔
      a ∈ emptyEvidence.wallets ∨ ∃ entry ∈ edges.rows, ∃ second ∈ entry.2.rows,
        AddsWalks p edges entry.1 second a := by
    refine OrderedSet.mem_foldl_of_step (f := MutableEvidence.wallets)
      (P := fun (entry : List Char × OrderedSet (List Char)) a => ∃ second ∈ entry.2.rows,
        AddsWalks p edges entry.1 second a) fun evidence entry _ a => ?_
    exact OrderedSet.mem_foldl_of_step (f := MutableEvidence.wallets)
      fun evidence second _ a => mem_innerLoop
  rw [hloops]
  constructor
  · rintro (h | ⟨⟨first, set⟩, hentry, second, hsecond, third, hthird, hback, ha⟩)
    · exact absurd h (Table.notMem_empty a)
    · have hset : edges.get? first = some set := OrderedMap.get?_eq_some_iff.mpr hentry
      have h1 : Edge trades first second := by
        rw [← hedge, targets, hset]
        exact hsecond
      have h2 := hedge.mp hthird
      have h3 := hedge.mp hback
      -- each of the three is the first of its own walk
      rcases ha with rfl | rfl | rfl
      · exact ⟨first, ⟨second, third, h1, h2, h3⟩, rfl⟩
      · exact ⟨second, ⟨third, first, h2, h3, h1⟩, rfl⟩
      · exact ⟨third, ⟨first, second, h3, h1, h2⟩, rfl⟩
  · rintro ⟨x, ⟨y, z, hxy, hyz, hzx⟩, rfl⟩
    have hfirst := hedge.mpr hxy
    rw [targets] at hfirst
    cases hset : edges.get? x with
    | none =>
      rw [hset] at hfirst
      exact absurd hfirst (Table.notMem_empty y)
    | some set =>
      rw [hset] at hfirst
      exact Or.inr ⟨(x, set), OrderedMap.get?_eq_some_iff.mp hset, y, hfirst, z, hedge.mpr hyz,
        hedge.mpr hzx, Or.inl rfl⟩

/-! ## The signal -/

/-- The signal of a list of trades. -/
def circularSignal (p : Platform) (trades : List DiscoveryTrade) : ManipulationEvidence :=
  detectCircularVolume p (canonicalTrades trades)

/-- **Circular volume means a cycle**: it is observed where there is a cycle of
three wallets, and reports those on such cycles. -/
def MeansCycle (p : Platform) (trades : List DiscoveryTrade) : Prop :=
  ((circularSignal p trades).status = .observed ↔ ∃ x, OnCycle trades x) ∧
    ∀ a, a ∈ (circularSignal p trades).walletAddresses ↔
      ∃ x, OnCycle trades x ∧ a = p.getAddress x

/-- **`getAddress` changes the case of letters only.** -/
def Platform.Recases (p : Platform) : Prop :=
  ∀ a : AddressText, (p.getAddress a.lower).lower = a.lower

theorem mem_walletAddresses : a ∈ (circularSignal p trades).walletAddresses ↔
    ∃ x, OnClosedWalk trades x ∧ a = p.getAddress x := by
  rw [← mem_circularEvidence, Table.mem_iff]
  exact List.mem_insertionSort _

theorem status_eq_observed_iff : (circularSignal p trades).status = .observed ↔
    3 ≤ (canonicalTrades trades).length ∧
      3 ≤ (circularEvidence p (canonicalTrades trades)).wallets.size := by
  simp only [circularSignal, detectCircularVolume, signal]
  split_ifs with hsufficient hobserved
  · exact iff_of_true rfl ⟨of_decide_eq_true hsufficient, of_decide_eq_true hobserved⟩
  · exact iff_of_false (fun h => by cases h) fun h => hobserved (decide_eq_true h.2)
  · exact iff_of_false (fun h => by cases h) fun h => hsufficient (decide_eq_true h.1)

/-- What has three distinct members is no shorter. -/
theorem three_le_length {α : Type} [DecidableEq α] {l : List α} {a b c : α} (ha : a ∈ l)
    (hb : b ∈ l) (hc : c ∈ l) (hab : a ≠ b) (hbc : b ≠ c) (hac : a ≠ c) : 3 ≤ l.length := by
  have hnodup : [a, b, c].Nodup := by simp [hab, hbc, hac]
  have hsubset : [a, b, c] ⊆ l := by
    intro d hd
    simp only [List.mem_cons, List.not_mem_nil, or_false] at hd
    rcases hd with rfl | rfl | rfl
    · exact ha
    · exact hb
    · exact hc
  exact (hnodup.subperm hsubset).length_le

/-- Wallets of the graph are told apart by their checksummed addresses. -/
theorem getAddress_inj (hp : p.Recases) (hx : Edge trades x u) (hy : Edge trades y v)
    (h : p.getAddress x = p.getAddress y) : x = y := by
  obtain ⟨_, -, -, rfl, -⟩ := hx
  obtain ⟨_, -, -, rfl, -⟩ := hy
  rw [← hp, h, hp]

/-- A cycle of three has three trades. -/
theorem OnCycle.three_trades (h : OnCycle trades x) : 3 ≤ (canonicalTrades trades).length := by
  obtain ⟨y, z, hxy, hyz, hxz, ⟨t, ht, htc, rfl, -⟩, ⟨t', ht', htc', rfl, -⟩,
    ⟨t'', ht'', htc'', rfl, -⟩⟩ := h
  refine three_le_length (mem_canonicalTrades.mpr ⟨ht, htc⟩)
    (mem_canonicalTrades.mpr ⟨ht', htc'⟩) (mem_canonicalTrades.mpr ⟨ht'', htc''⟩) ?_ ?_ ?_
  · rintro rfl
    exact hxy rfl
  · rintro rfl
    exact hyz rfl
  · rintro rfl
    exact hxz rfl

/-- A cycle of three has three wallets. -/
theorem OnCycle.three_wallets (hp : p.Recases) (h : OnCycle trades x) :
    3 ≤ (circularEvidence p (canonicalTrades trades)).wallets.size := by
  obtain ⟨y, z, hxy, hyz, hxz, h1, h2, h3⟩ := h
  have hmem : ∀ {w}, OnCycle trades w →
      p.getAddress w ∈ (circularEvidence p (canonicalTrades trades)).wallets.rows := fun hw =>
    mem_circularEvidence.mpr ⟨_, onClosedWalk_iff.mpr (Or.inl hw), rfl⟩
  obtain ⟨hy, hz⟩ := onCycle_rotate hxy hyz hxz h1 h2 h3
  exact three_le_length (hmem ⟨y, z, hxy, hyz, hxz, h1, h2, h3⟩) (hmem hy) (hmem hz)
    (fun h => hxy (getAddress_inj hp h1 h2 h)) (fun h => hyz (getAddress_inj hp h2 h3 h))
    fun h => hxz (getAddress_inj hp h1 h3 h)

/-- **When circular volume means a cycle**: where every wallet that a self-trade
puts on a closed walk is on a cycle of three. -/
theorem circular_iff (hp : p.Recases) :
    MeansCycle p trades ↔ ∀ x, BySelfTrade trades x → OnCycle trades x := by
  constructor
  · rintro ⟨-, hwallets⟩ x hself
    have hwalk : OnClosedWalk trades x := onClosedWalk_iff.mpr (Or.inr hself)
    obtain ⟨y, hy, heq⟩ := (hwallets _).mp (mem_walletAddresses.mpr ⟨x, hwalk, rfl⟩)
    obtain ⟨_, _, hx, -⟩ := hwalk
    obtain ⟨_, _, -, -, -, hedge, -⟩ := id hy
    rw [getAddress_inj hp hx hedge heq]
    exact hy
  · intro h
    have hwalk : ∀ x, OnClosedWalk trades x ↔ OnCycle trades x := fun x =>
      onClosedWalk_iff.trans ⟨fun hx => hx.elim id (h x), Or.inl⟩
    refine ⟨?_, fun a => by simp only [mem_walletAddresses, hwalk]⟩
    rw [status_eq_observed_iff]
    constructor
    · rintro ⟨-, hsize⟩
      obtain ⟨a, ha⟩ := List.exists_mem_of_length_pos (Nat.lt_of_lt_of_le (by omega) hsize)
      obtain ⟨x, hx, -⟩ := mem_circularEvidence.mp ha
      exact ⟨x, (hwalk x).mp hx⟩
    · rintro ⟨x, hx⟩
      exact ⟨hx.three_trades, hx.three_wallets hp⟩

/-! ## Three wallets that trade with themselves -/

theorem recases_samplePlatform : samplePlatform.Recases := by
  intro a
  have hkey : (∀ c ∈ a.lower, isHexDigit c = true) ∧ a.lower.length = 40 := by
    refine ⟨fun c hc => ?_, (List.length_map _).trans a.length⟩
    obtain ⟨d, hd, rfl⟩ := List.mem_map.mp hc
    exact isHexDigit_toLower (a.isHex d hd)
  have hspelled : (samplePlatform.getAddress a.lower).digits = a.lower := by
    change (spelled a.lower).digits = a.lower
    unfold spelled
    rw [dif_pos hkey]
  rw [AddressText.lower, hspelled, AddressText.lower, List.map_map]
  exact List.map_congr_left fun c hc => toLower_toLower (a.isHex c hc)

/-- A trade of a wallet with another. -/
def tradeWith (trader counterparty : AddressText) (logIndex : ℤ) : DiscoveryTrade :=
  { sampleTrade trader logIndex true with counterpartyAddress := some counterparty }

/-- Trades around a cycle of three. -/
def cycleTrades : List DiscoveryTrade :=
  [tradeWith sampleToken trader 1, tradeWith trader orphanedTrader 2,
    tradeWith orphanedTrader sampleToken 3]

/-- Three wallets, each of which trades with itself. -/
def selfTrades : List DiscoveryTrade :=
  [tradeWith sampleToken sampleToken 1, tradeWith trader trader 2,
    tradeWith orphanedTrader orphanedTrader 3]

theorem leads_tradeWith {source target : AddressText} {logIndex : ℤ} :
    Leads (tradeWith source target logIndex) x y ↔ source.lower = x ∧ target.lower = y := by
  show source.lower = x ∧ (∃ c ∈ some target, c.lower = y) ↔ _
  simp

/-- Trades without self-trades mean a cycle. -/
theorem circular_cycle : MeansCycle samplePlatform cycleTrades := by
  refine (circular_iff recases_samplePlatform).mpr fun x hself => ?_
  have hloop : ∀ u, ¬ Edge cycleTrades u u := by
    rintro u ⟨trade, htrade, -, hleads⟩
    simp only [cycleTrades, List.mem_cons, List.not_mem_nil, or_false] at htrade
    rcases htrade with rfl | rfl | rfl <;> rw [leads_tradeWith] at hleads <;>
      exact absurd (hleads.1.trans hleads.2.symm) (by decide)
  rcases hself with hself | ⟨y, hself, -⟩
  · exact absurd hself (hloop x)
  · exact absurd hself (hloop y)

/-- **Self-trades of three wallets** are observed as circular volume. -/
theorem circular_selfTrades : (circularSignal samplePlatform selfTrades).status = .observed ∧
    ¬ MeansCycle samplePlatform selfTrades := by
  have hself : ∀ w ∈ [sampleToken, trader, orphanedTrader], Edge selfTrades w.lower w.lower := by
    intro w hw
    simp only [List.mem_cons, List.not_mem_nil, or_false] at hw
    rcases hw with rfl | rfl | rfl
    · exact ⟨_, List.mem_cons_self, rfl, leads_tradeWith.mpr ⟨rfl, rfl⟩⟩
    · exact ⟨_, List.mem_cons_of_mem _ List.mem_cons_self, rfl, leads_tradeWith.mpr ⟨rfl, rfl⟩⟩
    · exact ⟨_, List.mem_cons_of_mem _ (List.mem_cons_of_mem _ List.mem_cons_self), rfl,
        leads_tradeWith.mpr ⟨rfl, rfl⟩⟩
  have hwallet : ∀ w ∈ [sampleToken, trader, orphanedTrader], samplePlatform.getAddress w.lower ∈
      (circularEvidence samplePlatform (canonicalTrades selfTrades)).wallets.rows := fun w hw =>
    Table.mem_iff.mp (mem_circularEvidence.mpr
      ⟨w.lower, ⟨w.lower, w.lower, hself w hw, hself w hw, hself w hw⟩, rfl⟩)
  have hapart : ∀ v w : AddressText, v.lower ≠ w.lower →
      samplePlatform.getAddress v.lower ≠ samplePlatform.getAddress w.lower := by
    intro v w hne heq
    rw [← recases_samplePlatform v, heq, recases_samplePlatform w] at hne
    exact hne rfl
  have hobserved : (circularSignal samplePlatform selfTrades).status = .observed :=
    status_eq_observed_iff.mpr ⟨by decide,
      three_le_length (hwallet sampleToken (by simp)) (hwallet trader (by simp))
        (hwallet orphanedTrader (by simp)) (hapart _ _ (by decide)) (hapart _ _ (by decide))
        (hapart _ _ (by decide))⟩
  refine ⟨hobserved, fun h => ?_⟩
  obtain ⟨x, y, z, hxy, -, -, ⟨trade, htrade, -, hleads⟩, -⟩ := h.1.mp hobserved
  simp only [selfTrades, List.mem_cons, List.not_mem_nil, or_false] at htrade
  rcases htrade with rfl | rfl | rfl <;> rw [leads_tradeWith] at hleads <;>
    exact hxy (hleads.1.symm.trans hleads.2)

end Discovery

end HoodSentry
