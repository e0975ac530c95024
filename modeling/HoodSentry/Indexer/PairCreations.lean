import HoodSentry.Indexer.Model.PairProvenance
/-!
# Which creation a provenance names

A receipt may announce several pairs, of several factories, and the reader
takes the first announcement of the factory the explorer names, or the first
one at all where it names none. Nobody reads which pair the log announces. So a
provenance is that of its pair exactly where the explorer names a factory and
the first announcement of that factory is the pair's (`namesItsPair_iff`).
-/

namespace HoodSentry

namespace BlockscoutPairProvenance

variable {sources : Sources} {addresses : List String} {creation : CreationRecord}
variable {provenance : PairProvenance} {receipt : ReceiptRecord} {event log : ReceiptLog}

/-! ## What a log announces -/

/-- The pair in the data of a `PairCreated` log: the last forty digits of its
first word. -/
def announcedPair (log : ReceiptLog) : String :=
  String.ofList ('0' :: 'x' :: ((log.data.toList.drop 26).take 40).map Char.toLower)

/-- **The log of a pair's creation** by a factory. -/
def Announces (log : ReceiptLog) (factory pair : String) : Prop :=
  isPairCreated log = true ∧ lower log.address = factory ∧ announcedPair log = lower pair

/-- The receipt of a transaction, as it is read. -/
def receiptOf (sources : Sources) (txHash : String) : Option ReceiptRecord :=
  (sources.getTransactionReceipt txHash).bind readReceipt

/-- **The receipts of a node**: each log has an index of its own, and an emitter. -/
structure Receipts (sources : Sources) : Prop where
  indexes : ∀ txHash, ∀ receipt ∈ receiptOf sources txHash, (receipt.logs.map (·.logIndex)).Nodup
  emitters : ∀ txHash, ∀ receipt ∈ receiptOf sources txHash, ∀ log ∈ receipt.logs, log.address ≠ ""

/-- A provenance names the log of its pair's creation. -/
def NamesCreation (sources : Sources) (provenance : PairProvenance) : Prop :=
  ∃ receipt ∈ receiptOf sources provenance.createdTxHash, ∃ log ∈ receipt.logs,
    log.logIndex = provenance.creationLogIndex ∧
      Announces log provenance.factoryAddress provenance.address

/-- **Provenance names its pair**, and no two pairs share a log. -/
def NamesItsPair (sources : Sources) (addresses : List String) : Prop :=
  (∀ provenance ∈ (lookup sources addresses).values, NamesCreation sources provenance) ∧
    ∀ p ∈ (lookup sources addresses).values, ∀ q ∈ (lookup sources addresses).values,
      p.createdTxHash = q.createdTxHash → p.creationLogIndex = q.creationLogIndex →
        lower p.address = lower q.address

/-! ## Resolving -/

theorem resolve_eq_some_iff : resolve sources creation = some provenance ↔
    ∃ receipt ∈ receiptOf sources creation.txHash, ∃ event ∈ eventOf (factoryOf creation) receipt,
      ∃ createdBlock ∈ bigInt creation.blockNumber, provenance = {
        address := creation.contractAddress
        createdBlock := createdBlock
        createdTxHash := creation.txHash
        createdBlockHash := receipt.blockHash
        creationLogIndex := event.logIndex
        factoryAddress := factoryOf creation } := by
  simp only [resolve, receiptOf, Option.bind_eq_bind, Option.bind_eq_some_iff, Option.mem_def,
    Option.pure_def, Option.some.injEq]
  constructor
  · rintro ⟨payload, hpayload, receipt, hreceipt, event, hevent, block, hblock, rfl⟩
    exact ⟨receipt, ⟨payload, hpayload, hreceipt⟩, event, hevent, block, hblock, rfl⟩
  · rintro ⟨receipt, ⟨payload, hpayload, hreceipt⟩, event, hevent, block, hblock, rfl⟩
    exact ⟨payload, hpayload, receipt, hreceipt, event, hevent, block, hblock, rfl⟩

/-- A creation that can be resolved: its receipt is read, announces a pair of
the factory named, and its block is a number. -/
def Resolvable (sources : Sources) (creation : CreationRecord) : Prop :=
  ∃ receipt ∈ receiptOf sources creation.txHash,
    (eventOf (factoryOf creation) receipt).isSome = true ∧
      (bigInt creation.blockNumber).isSome = true

theorem isSome_resolve_iff : (resolve sources creation).isSome = true ↔
    Resolvable sources creation := by
  rw [Option.isSome_iff_exists]
  constructor
  · rintro ⟨provenance, h⟩
    obtain ⟨receipt, hreceipt, event, hevent, block, hblock, -⟩ := resolve_eq_some_iff.mp h
    exact ⟨receipt, hreceipt, Option.isSome_iff_exists.mpr ⟨event, hevent⟩,
      Option.isSome_iff_exists.mpr ⟨block, hblock⟩⟩
  · rintro ⟨receipt, hreceipt, hevent, hblock⟩
    obtain ⟨event, hevent⟩ := Option.isSome_iff_exists.mp hevent
    obtain ⟨block, hblock⟩ := Option.isSome_iff_exists.mp hblock
    exact ⟨_, resolve_eq_some_iff.mpr ⟨receipt, hreceipt, event, hevent, block, hblock, rfl⟩⟩

/-- The event is an announcement, of the factory where one is named. -/
theorem event_spec {factory : String} (h : eventOf factory receipt = some event) :
    event ∈ receipt.logs ∧ isPairCreated event = true ∧
      (factory ≠ "" → lower event.address = factory) := by
  have hfound := List.find?_some h
  simp only [Bool.and_eq_true, Bool.or_eq_true, decide_eq_true_eq] at hfound
  exact ⟨List.mem_of_find?_eq_some h, hfound.1, fun hne => hfound.2.resolve_left hne⟩

/-- **The announcement taken is the pair's**: the explorer names a factory, and
its first announcement in the receipt is of the pair. -/
def TakesItsOwn (sources : Sources) (creation : CreationRecord) : Prop :=
  factoryOf creation ≠ "" ∧ ∀ receipt ∈ receiptOf sources creation.txHash,
    ∀ event ∈ eventOf (factoryOf creation) receipt,
      announcedPair event = lower creation.contractAddress

theorem lower_ne_empty {text : String} (h : lower text = "") : text = "" := by
  have hlist : text.toList.map Char.toLower = [] := by
    have heq := congrArg String.toList h
    rw [lower, String.toList_ofList] at heq
    exact heq
  exact String.toList_injective (List.map_eq_nil_iff.mp hlist)

theorem namesCreation_iff (hreceipts : Receipts sources) (h : resolve sources creation = some provenance) :
    NamesCreation sources provenance ↔ TakesItsOwn sources creation := by
  obtain ⟨receipt, hreceipt, event, hevent, block, -, rfl⟩ := resolve_eq_some_iff.mp h
  obtain ⟨hmem, hcreated, hfactory⟩ := event_spec hevent
  constructor
  · rintro ⟨receipt', hreceipt', log, hlog, hindex, -, hemitter, hpair⟩
    obtain rfl : receipt' = receipt := Option.some.inj (hreceipt'.symm.trans hreceipt)
    have hsame : log = event :=
      List.inj_on_of_nodup_map (hreceipts.indexes _ _ hreceipt) hlog hmem hindex
    subst hsame
    refine ⟨fun hnone => ?_, fun receipt' hreceipt' event' hevent' => ?_⟩
    · exact hreceipts.emitters _ _ hreceipt log hlog (lower_ne_empty (hemitter.trans hnone))
    · obtain rfl : receipt' = _ := Option.some.inj (hreceipt'.symm.trans hreceipt)
      obtain rfl : event' = _ := Option.some.inj (hevent'.symm.trans hevent)
      exact hpair
  · rintro ⟨hnamed, htakes⟩
    exact ⟨receipt, hreceipt, event, hmem, rfl, hcreated, hfactory hnamed,
      htakes receipt hreceipt event hevent⟩

/-! ## Looking up -/

/-- What the explorer names for all the addresses, in order. -/
def creations (sources : Sources) (addresses : List String) : List CreationRecord :=
  (chunks addresses).flatMap (creationsOf sources)

theorem lookup_eq : lookup sources addresses =
    (creations sources addresses).foldl (record sources) ∅ :=
  List.foldl_flatMap.symm

theorem address_of_resolve (h : resolve sources creation = some provenance) :
    provenance.address = creation.contractAddress := by
  obtain ⟨_, -, _, -, _, -, rfl⟩ := resolve_eq_some_iff.mp h
  rfl

/-- **The record of a pair that counts**: the last one that can be resolved. -/
def Counts (sources : Sources) (records : List CreationRecord) (creation : CreationRecord) : Prop :=
  ∃ before after, records = before ++ creation :: after ∧ Resolvable sources creation ∧
    ∀ later ∈ after, Resolvable sources later →
      lower later.contractAddress ≠ lower creation.contractAddress

/-- A further record counts where it can be resolved, and replaces those of its pair. -/
theorem counts_concat {records : List CreationRecord} {last : CreationRecord} :
    Counts sources (records ++ [last]) creation ↔
      (Counts sources records creation ∧ (Resolvable sources last →
        lower last.contractAddress ≠ lower creation.contractAddress)) ∨
      (creation = last ∧ Resolvable sources last) := by
  constructor
  · rintro ⟨before, after, hsplit, hresolvable, hlater⟩
    rcases List.eq_nil_or_concat' after with rfl | ⟨after, last', rfl⟩
    · obtain ⟨-, hlast⟩ := List.append_inj' hsplit rfl
      obtain rfl := (List.cons.inj hlast).1
      exact Or.inr ⟨rfl, hresolvable⟩
    · rw [← List.cons_append, ← List.append_assoc] at hsplit
      obtain ⟨rfl, hlast⟩ := List.append_inj' hsplit rfl
      obtain rfl := (List.cons.inj hlast).1
      refine Or.inl ⟨⟨before, after, rfl, hresolvable, fun later h => ?_⟩, ?_⟩
      · exact hlater later (List.mem_append_left _ h)
      · exact hlater last (List.mem_append_right _ List.mem_cons_self)
  · rintro (⟨⟨before, after, rfl, hresolvable, hlater⟩, hlast⟩ | ⟨rfl, hresolvable⟩)
    · refine ⟨before, after ++ [last], by simp, hresolvable, fun later h => ?_⟩
      rcases List.mem_append.mp h with h | h
      · exact hlater later h
      · rw [List.mem_singleton.mp h]
        exact hlast
    · exact ⟨records, [], rfl, hresolvable, fun later h => absurd h List.not_mem_nil⟩

/-- **What is found**: each pair under its address, as its record that counts is
resolved. -/
theorem mem_foldl_record (records : List CreationRecord) {key : String} :
    (key, provenance) ∈ records.foldl (record sources) ∅ ↔
      lower provenance.address = key ∧ ∃ creation, Counts sources records creation ∧
        resolve sources creation = some provenance := by
  induction records using List.reverseRecOn generalizing key provenance with
  | nil =>
    refine iff_of_false (Table.notMem_empty _) ?_
    rintro ⟨-, creation, ⟨before, after, hsplit, -⟩, -⟩
    exact absurd (congrArg List.length hsplit) (by simp)
  | append_singleton records last ih =>
    rw [List.foldl_append, List.foldl_cons, List.foldl_nil, record]
    simp only [counts_concat]
    cases hlast : resolve sources last with
    | none =>
      have hnot : ¬ Resolvable sources last := by
        rw [← isSome_resolve_iff, hlast]
        exact Bool.false_ne_true
      simp only [ih, hnot, false_implies, and_true, and_false, or_false]
    | some resolved =>
      have hresolvable : Resolvable sources last := by
        rw [← isSome_resolve_iff, hlast]
        rfl
      have haddress := address_of_resolve hlast
      dsimp only
      rw [OrderedMap.mem_set, ih]
      constructor
      · rintro (⟨⟨rfl, creation, hcounts, hresolve⟩, hne⟩ | ⟨rfl, rfl⟩)
        · refine ⟨rfl, creation, Or.inl ⟨hcounts, fun _ heq => hne ?_⟩, hresolve⟩
          rw [address_of_resolve hresolve, haddress, heq]
        · exact ⟨rfl, last, Or.inr ⟨rfl, hresolvable⟩, hlast⟩
      · rintro ⟨rfl, creation, ⟨hcounts, hother⟩ | ⟨rfl, -⟩, hresolve⟩
        · refine Or.inl ⟨⟨rfl, creation, hcounts, hresolve⟩, fun heq => hother hresolvable ?_⟩
          rw [address_of_resolve hresolve, haddress] at heq
          exact heq.symm
        · obtain rfl := Option.some.inj (hlast.symm.trans hresolve)
          exact Or.inr ⟨rfl, rfl⟩

theorem mem_values_lookup : provenance ∈ (lookup sources addresses).values ↔
    ∃ creation, Counts sources (creations sources addresses) creation ∧
      resolve sources creation = some provenance := by
  rw [OrderedMap.values, List.mem_map, lookup_eq]
  constructor
  · rintro ⟨⟨key, provenance⟩, hmem, rfl⟩
    exact ((mem_foldl_record _).mp hmem).2
  · intro h
    exact ⟨(lower provenance.address, provenance), (mem_foldl_record _).mpr ⟨rfl, h⟩, rfl⟩

/-- **When provenance names its pair**: where the record of every pair that
counts takes the pair's own announcement. -/
theorem namesItsPair_iff (hreceipts : Receipts sources) :
    NamesItsPair sources addresses ↔
      ∀ creation, Counts sources (creations sources addresses) creation →
        TakesItsOwn sources creation := by
  have hresolves : ∀ creation, Counts sources (creations sources addresses) creation →
      ∃ provenance, resolve sources creation = some provenance := by
    rintro creation ⟨-, -, -, hresolvable, -⟩
    exact Option.isSome_iff_exists.mp (isSome_resolve_iff.mpr hresolvable)
  constructor
  · rintro ⟨hnames, -⟩ creation hcounts
    obtain ⟨provenance, hresolve⟩ := hresolves creation hcounts
    exact (namesCreation_iff hreceipts hresolve).mp
      (hnames provenance (mem_values_lookup.mpr ⟨creation, hcounts, hresolve⟩))
  · intro h
    have hnames : ∀ provenance ∈ (lookup sources addresses).values,
        NamesCreation sources provenance := by
      intro provenance hmem
      obtain ⟨creation, hcounts, hresolve⟩ := mem_values_lookup.mp hmem
      exact (namesCreation_iff hreceipts hresolve).mpr (h creation hcounts)
    refine ⟨hnames, fun p hp q hq htx hindex => ?_⟩
    -- a log announces one pair
    obtain ⟨receipt, hreceipt, log, hlog, hlogIndex, -, -, hpair⟩ := hnames p hp
    obtain ⟨receipt', hreceipt', log', hlog', hlogIndex', -, -, hpair'⟩ := hnames q hq
    rw [← htx] at hreceipt'
    obtain rfl : receipt' = receipt := Option.some.inj (hreceipt'.symm.trans hreceipt)
    have hsame : log' = log := List.inj_on_of_nodup_map (hreceipts.indexes _ _ hreceipt) hlog' hlog
      (hlogIndex'.trans (hindex.symm.trans hlogIndex.symm))
    rw [← hpair, ← hpair', hsame]

/-! ## Two pairs of one transaction -/

/-- An address of one digit throughout. -/
def addressOf (digit : Char) : String := String.ofList ('0' :: 'x' :: List.replicate 40 digit)

/-- The log in which a factory announces a pair. -/
def announcement (logIndex : ℤ) (digit : Char) : RawLog where
  address := some (addressOf 'f')
  topics := some [some PAIR_CREATED_TOPIC]
  logIndex := some logIndex
  data := String.ofList ('0' :: 'x' :: (List.replicate 24 '0' ++ List.replicate 40 digit ++
    List.replicate 64 '1'))

/-- A transaction of these announcements created what the explorer is asked for. -/
def samplesOf (logs : List RawLog) : Sources where
  getTransactionReceipt _ := some (some ⟨some "0xb1", some (logs.map some)⟩)
  getContractCreation chunk := some (some (chunk.map fun address =>
    some ⟨some address, some "100", some "0x71", some (addressOf 'f')⟩))

/-- The log as it is read. -/
def announced (logIndex : ℤ) (digit : Char) : ReceiptLog where
  address := addressOf 'f'
  topics := [PAIR_CREATED_TOPIC]
  logIndex := logIndex
  data := (announcement logIndex digit).data

theorem receiptOf_samplesOf {logIndex : ℤ} {digit : Char} (txHash : String) :
    receiptOf (samplesOf [announcement logIndex digit]) txHash =
      some ⟨"0xb1", [announced logIndex digit]⟩ := rfl

/-- A pair that is created alone is named. -/
theorem namesItsPair_alone : NamesItsPair (samplesOf [announcement 3 'a']) [addressOf 'a'] := by
  have hreceipts : Receipts (samplesOf [announcement 3 'a']) := by
    constructor
    · intro txHash receipt hreceipt
      obtain rfl := Option.some.inj ((receiptOf_samplesOf txHash).symm.trans hreceipt)
      exact List.nodup_singleton _
    · intro txHash receipt hreceipt log hlog
      obtain rfl := Option.some.inj ((receiptOf_samplesOf txHash).symm.trans hreceipt)
      rw [List.mem_singleton.mp hlog]
      decide +kernel
  refine (namesItsPair_iff hreceipts).mpr ?_
  rintro creation ⟨before, after, hsplit, -⟩
  have hcreations : creations (samplesOf [announcement 3 'a']) [addressOf 'a'] =
      [⟨addressOf 'a', "100", "0x71", some (addressOf 'f')⟩] := by decide +kernel
  have hmem : creation ∈ creations (samplesOf [announcement 3 'a']) [addressOf 'a'] := by
    rw [hsplit]
    simp
  rw [hcreations, List.mem_singleton] at hmem
  subst hmem
  refine ⟨by decide +kernel, fun receipt hreceipt event hevent => ?_⟩
  obtain rfl := Option.some.inj ((receiptOf_samplesOf _).symm.trans hreceipt)
  have hevents := (event_spec hevent).1
  rw [List.mem_singleton.mp hevents]
  decide +kernel

/-- **Two pairs of one transaction** are given one log, that of the first. -/
theorem not_namesItsPair_two : ¬ NamesItsPair
    (samplesOf [announcement 3 'a', announcement 5 'b']) [addressOf 'a', addressOf 'b'] := by
  rintro ⟨-, h⟩
  have hfound : (lookup (samplesOf [announcement 3 'a', announcement 5 'b'])
      [addressOf 'a', addressOf 'b']).values =
      [⟨addressOf 'a', 100, "0x71", "0xb1", 3, addressOf 'f'⟩,
        ⟨addressOf 'b', 100, "0x71", "0xb1", 3, addressOf 'f'⟩] := by decide +kernel
  rw [hfound] at h
  have hsame := h _ List.mem_cons_self _ (List.mem_cons_of_mem _ List.mem_cons_self) rfl rfl
  exact absurd hsame (by decide +kernel)

end BlockscoutPairProvenance

end HoodSentry
