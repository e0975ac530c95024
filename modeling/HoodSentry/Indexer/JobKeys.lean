import HoodSentry.Common.JsonText
import HoodSentry.Common.Text
import HoodSentry.Indexer.ProtocolEvents
import HoodSentry.Market.Model.Selection
/-!
# Keys of derived jobs

A job goes to the queue under the text of its idempotency key, and the queue
drops a job whose key is already pending. The text determines the fields of
the key (`derivedJobIdempotencyKey_inj`), so a job is swallowed where another
one of its block has the same fields: the second metadata job of a new pool,
and the alert of a log that is both a token's and a protocol's event.
-/

namespace HoodSentry

/-! ## The keys -/

/-- `DERIVED_JOB_TYPES`, as the queue has them. -/
def DerivedJobType.text : DerivedJobType → String
  | .contractCreation => "contract-creation"
  | .tokenTransfer => "token-transfer"
  | .tokenApproval => "token-approval"
  | .poolRefresh => "pool-refresh"
  | .tokenMetadata => "token-metadata"
  | .riskAnalysis => "risk-analysis"
  | .newPriceObservation => "new-price-observation"
  | .marketMetric => "market-metric"
  | .walletActivity => "wallet-activity"
  | .alertEvaluation => "alert-evaluation"
  | .sourceReconciliation => "source-reconciliation"
  | .liquidityMetric => "liquidity-metric"
  | .protocolEnrichment => "protocol-enrichment"
  | .bondingCurveMigrationTransition => "bonding-curve-migration-transition"
  | .discoveryRefresh => "discovery-refresh"

/-- `TOKEN_SCOPED_JOB_TYPES`. -/
def isTokenScopedJobType (type : DerivedJobType) : Bool :=
  type ∈ [DerivedJobType.tokenMetadata, .discoveryRefresh]

def tokenScopedIdempotencyKey (type : DerivedJobType) (chainId : ℕ) (tokenAddress : Address) :
    String :=
  joinTexts ':' [toString chainId, type.text, addressText tokenAddress]

/-- The fields joined by colons; a field that is missing is empty, and a
missing source key is left out. -/
def derivedJobIdempotencyKey (type : DerivedJobType) (chainId : ℕ) (blockHash : Hash)
    (transactionHash : Option Hash) (logIndex : Option ℕ) (sourceKey : Option String) : String :=
  joinTexts ':' ([toString chainId, hashText blockHash, transactionHash.elim "" hashText,
    logIndex.elim "" toString, type.text] ++ sourceKey.toList)

namespace JobData

/-- `data.tokenAddress`, where it is a string. -/
def tokenAddress : JobData → Option Address
  | contractCreation .. | chainlinkSource .. | swap .. => none
  | tokenTransfer shared .. | tokenApproval shared .. => some shared.tokenAddress
  | token address => some address
  | pool _ _ _ _ address _ => address
  | launchpad _ address _ | launchpadMigration _ address .. => some address

def transactionHash : JobData → Option Hash
  | contractCreation hash .. => some hash
  | tokenTransfer shared .. | tokenApproval shared .. => some shared.transactionHash
  | token _ | chainlinkSource .. => none
  | pool event .. | swap event .. | launchpad event .. | launchpadMigration event .. =>
    some event.transactionHash

def logIndex : JobData → Option ℕ
  | contractCreation .. | token _ | chainlinkSource .. => none
  | tokenTransfer shared .. | tokenApproval shared .. => some shared.logIndex
  | pool event .. | swap event .. | launchpad event .. | launchpadMigration event .. =>
    some event.logIndex

def sourceKey : JobData → Option String
  | chainlinkSource key .. => some key
  | _ => none

end JobData

/-- `idempotencyKeyFor`: the key of a discovery job. -/
def idempotencyKeyFor (job : DerivedJob) : String :=
  match job.data.tokenAddress, isTokenScopedJobType job.type with
  | some tokenAddress, true => tokenScopedIdempotencyKey job.type job.chainId tokenAddress
  | _, _ =>
    derivedJobIdempotencyKey job.type job.chainId job.blockHash job.data.transactionHash
      job.data.logIndex none

/-- What an event carries of its log. -/
def NormalizedProtocolEvent.origin : NormalizedProtocolEvent → EventOrigin
  | pool origin .. | swap origin .. | liquidity origin .. | launchpadToken origin ..
  | launchpadTrade origin .. | graduation origin .. | migration origin .. => origin

/-- The key `publishJobs` of the protocol handler makes. -/
def protocolJobKey (event : NormalizedProtocolEvent) (type : DerivedJobType) : String :=
  joinTexts ':' [toString event.origin.chainId, hashText event.origin.blockHash,
    hashText event.origin.transactionHash, toString event.origin.logIndex, type.text]

/-! ## What their texts determine -/

section Texts

variable {sep : Char} {x y : String} {xs ys : List String}

/-- Joined texts are read field by field. -/
theorem joinTexts_cons_inj (hx : sep ∉ x.toList) (hy : sep ∉ y.toList) (hxs : xs ≠ [])
    (hys : ys ≠ []) (h : joinTexts sep (x :: xs) = joinTexts sep (y :: ys)) :
    x = y ∧ joinTexts sep xs = joinTexts sep ys := by
  have hjoin : ∀ x : String, ∀ xs, xs ≠ [] →
      (joinTexts sep (x :: xs)).toList = x.toList ++ sep :: (joinTexts sep xs).toList := by
    intro x xs hne
    obtain ⟨z, zs, rfl⟩ := List.exists_cons_of_ne_nil hne
    simp only [toList_joinTexts, List.map_cons, List.intercalate_cons_cons, List.append_assoc,
      List.singleton_append]
  have hfree : ∀ x : String, sep ∉ x.toList → ∀ c ∈ x.toList, (c != sep) = true := by
    intro x hx c hc
    exact bne_iff_ne.mpr fun heq => hx (heq ▸ hc)
  have htext := congrArg String.toList h
  rw [hjoin x xs hxs, hjoin y ys hys] at htext
  obtain ⟨hfirst, hrest⟩ := append_inj_of_stops (hfree x hx) (hfree y hy)
    (by simp) (by simp) htext
  exact ⟨String.toList_inj.mp hfirst, String.toList_inj.mp (List.cons.inj hrest).2⟩

theorem joinTexts_singleton : joinTexts sep [x] = x := by
  rw [← String.toList_inj, toList_joinTexts, List.map_singleton, List.intercalate_singleton]

theorem exists_digitChar {b n : ℕ} (hb : 1 < b) {c : Char} (h : c ∈ Nat.toDigits b n) :
    ∃ d, c = Nat.digitChar d := by
  induction n using Nat.strongRecOn with
  | _ n ih =>
    rw [Nat.toDigits_eq_if hb] at h
    split at h
    · exact ⟨n, List.mem_singleton.mp h⟩
    · rename_i hlt
      rcases List.mem_append.mp h with h | h
      · exact ih (n / b) (Nat.div_lt_self (by omega) hb) h
      · exact ⟨n % b, List.mem_singleton.mp h⟩

theorem colon_not_mem_toDigits {b n : ℕ} (hb : 1 < b) : ':' ∉ Nat.toDigits b n := by
  intro h
  obtain ⟨d, hd⟩ := exists_digitChar hb h
  exact Nat.digitChar_ne ':' (by decide) hd.symm

/-- The number that hexadecimal digits spell. -/
def hexValue (digits : List Char) : ℕ :=
  digits.foldl (fun value c => 16 * value + (c.toNat - if c.isDigit then 48 else 87)) 0

theorem hexValue_toDigits (n : ℕ) : hexValue (Nat.toDigits 16 n) = n := by
  have hdigit : ∀ d < 16, (Nat.digitChar d).toNat -
      (if (Nat.digitChar d).isDigit then 48 else 87) = d := by decide
  induction n using Nat.strongRecOn with
  | _ n ih =>
    rw [Nat.toDigits_eq_if (by omega)]
    split
    · rename_i hlt
      simpa [hexValue] using hdigit n hlt
    · rename_i hlt
      have hhigh := ih (n / 16) (Nat.div_lt_self (by omega) (by omega))
      have hlow := hdigit (n % 16) (Nat.mod_lt n (by omega))
      rw [hexValue] at hhigh ⊢
      rw [List.foldl_append, hhigh, List.foldl_cons, List.foldl_nil, hlow]
      omega

theorem hexValue_padded (k n : ℕ) :
    hexValue (List.replicate k '0' ++ Nat.toDigits 16 n) = n := by
  induction k with
  | zero => exact hexValue_toDigits n
  | succ k ih =>
    rw [List.replicate_succ, List.cons_append]
    exact ih

theorem hashText_injective {a b : Hash} (h : hashText a = hashText b) : a = b := by
  have hdigits := congrArg String.toList h
  simp only [hashText, String.toList_append, String.toList_ofList] at hdigits
  have hvalue := congrArg hexValue (List.append_cancel_left hdigits)
  rw [hexValue_padded, hexValue_padded] at hvalue
  cases a
  cases b
  exact congrArg Hash.mk hvalue

theorem addressText_injective {a b : Address} (h : addressText a = addressText b) : a = b := by
  have hdigits := congrArg String.toList h
  simp only [addressText, String.toList_append, String.toList_ofList] at hdigits
  have hvalue := congrArg hexValue (List.append_cancel_left hdigits)
  rw [hexValue_padded, hexValue_padded] at hvalue
  cases a
  cases b
  exact congrArg Address.mk hvalue

theorem colon_not_mem_toString (n : ℕ) : ':' ∉ (toString n).toList := by
  change ':' ∉ n.repr.toList
  rw [Nat.toList_repr]
  exact colon_not_mem_toDigits (by omega)

theorem toString_nat_injective {m n : ℕ} (h : toString m = toString n) : m = n :=
  Nat.repr_injective h

theorem colon_not_mem_padded (k n : ℕ) : ':' ∉
    ("0x" ++ String.ofList (List.replicate k '0' ++ Nat.toDigits 16 n)).toList := by
  simp only [String.toList_append, String.toList_ofList, List.mem_append, not_or]
  refine ⟨by decide, fun h => ?_, colon_not_mem_toDigits (by omega)⟩
  exact absurd (List.eq_of_mem_replicate h) (by decide)

theorem colon_not_mem_hashText (hash : Hash) : ':' ∉ (hashText hash).toList :=
  colon_not_mem_padded _ _

theorem DerivedJobType.colon_not_mem_text (type : DerivedJobType) : ':' ∉ type.text.toList := by
  cases type <;> decide

/-- The types' texts are told apart by their first letters, each of which ends
before any other begins. -/
theorem DerivedJobType.text_injective {s t : DerivedJobType} (h : s.text = t.text) : s = t := by
  have hdistinct : ([contractCreation, tokenTransfer, tokenApproval, poolRefresh, tokenMetadata,
      riskAnalysis, newPriceObservation, marketMetric, walletActivity, alertEvaluation,
      sourceReconciliation, liquidityMetric, protocolEnrichment, bondingCurveMigrationTransition,
      discoveryRefresh].map text).Nodup := by decide +kernel
  exact List.inj_on_of_nodup_map hdistinct (by cases s <;> decide) (by cases t <;> decide) h

/-- A field that may be missing is empty only then. -/
theorem optional_injective {α : Type*} {f : α → String} (hf : Function.Injective f)
    (hne : ∀ a, f a ≠ "") {a b : Option α} (h : a.elim "" f = b.elim "" f) : a = b := by
  cases a with
  | none =>
    cases b with
    | none => rfl
    | some b => exact absurd h.symm (hne b)
  | some a =>
    cases b with
    | none => exact absurd h (hne a)
    | some b => exact congrArg some (hf h)

theorem colon_not_mem_optional {α : Type*} {f : α → String} (hf : ∀ a, ':' ∉ (f a).toList)
    (a : Option α) : ':' ∉ (a.elim "" f).toList := by
  cases a with
  | none => exact List.not_mem_nil
  | some a => exact hf a

theorem hashText_ne_empty (hash : Hash) : hashText hash ≠ "" := by
  intro h
  have hlist := congrArg String.toList h
  simp [hashText] at hlist

theorem toString_nat_ne_empty (n : ℕ) : toString n ≠ "" := Nat.repr_ne_empty

end Texts

section Keys

variable {type type' : DerivedJobType} {chainId chainId' : ℕ} {blockHash blockHash' : Hash}
variable {transactionHash transactionHash' : Option Hash} {logIndex logIndex' : Option ℕ}
variable {sourceKey sourceKey' : Option String} {token token' : Address}

/-- **A key's text determines its fields**, whatever is in the source key. -/
theorem derivedJobIdempotencyKey_inj
    (h : derivedJobIdempotencyKey type chainId blockHash transactionHash logIndex sourceKey =
      derivedJobIdempotencyKey type' chainId' blockHash' transactionHash' logIndex' sourceKey') :
    type = type' ∧ chainId = chainId' ∧ blockHash = blockHash' ∧
      transactionHash = transactionHash' ∧ logIndex = logIndex' ∧ sourceKey = sourceKey' := by
  simp only [derivedJobIdempotencyKey, List.cons_append, List.nil_append] at h
  obtain ⟨hchain, h⟩ := joinTexts_cons_inj (colon_not_mem_toString _) (colon_not_mem_toString _)
    (by simp) (by simp) h
  obtain ⟨hblock, h⟩ := joinTexts_cons_inj (colon_not_mem_hashText _) (colon_not_mem_hashText _)
    (by simp) (by simp) h
  obtain ⟨htransaction, h⟩ := joinTexts_cons_inj
    (colon_not_mem_optional colon_not_mem_hashText _)
    (colon_not_mem_optional colon_not_mem_hashText _) (by simp) (by simp) h
  obtain ⟨hlog, h⟩ := joinTexts_cons_inj (colon_not_mem_optional colon_not_mem_toString _)
    (colon_not_mem_optional colon_not_mem_toString _) (by simp) (by simp) h
  have hend : type = type' ∧ sourceKey = sourceKey' := by
    have hshort : ∀ t t' : DerivedJobType, ∀ key,
        joinTexts ':' [t.text] ≠ joinTexts ':' (t'.text :: [key]) := by
      intro t t' key heq
      have hcolon := t.colon_not_mem_text
      rw [joinTexts_singleton] at heq
      rw [heq, toList_joinTexts] at hcolon
      exact hcolon (by simp)
    cases sourceKey with
    | none =>
      cases sourceKey' with
      | none =>
        rw [Option.toList_none, joinTexts_singleton, joinTexts_singleton] at h
        exact ⟨DerivedJobType.text_injective h, rfl⟩
      | some key => exact absurd h (hshort _ _ _)
    | some key =>
      cases sourceKey' with
      | none => exact absurd h.symm (hshort _ _ _)
      | some key' =>
        obtain ⟨htype, hkey⟩ := joinTexts_cons_inj type.colon_not_mem_text
          type'.colon_not_mem_text (by simp) (by simp) h
        rw [Option.toList_some, Option.toList_some, joinTexts_singleton, joinTexts_singleton]
          at hkey
        exact ⟨DerivedJobType.text_injective htype, congrArg some hkey⟩
  exact ⟨hend.1, toString_nat_injective hchain, hashText_injective hblock,
    optional_injective (fun _ _ => hashText_injective) hashText_ne_empty htransaction,
    optional_injective (fun _ _ => toString_nat_injective) toString_nat_ne_empty hlog, hend.2⟩

theorem tokenScopedIdempotencyKey_inj (h : tokenScopedIdempotencyKey type chainId token =
    tokenScopedIdempotencyKey type' chainId' token') :
    type = type' ∧ chainId = chainId' ∧ token = token' := by
  unfold tokenScopedIdempotencyKey at h
  obtain ⟨hchain, h⟩ := joinTexts_cons_inj (colon_not_mem_toString _) (colon_not_mem_toString _)
    (by simp) (by simp) h
  obtain ⟨htype, h⟩ := joinTexts_cons_inj type.colon_not_mem_text type'.colon_not_mem_text
    (by simp) (by simp) h
  rw [joinTexts_singleton, joinTexts_singleton] at h
  exact ⟨DerivedJobType.text_injective htype, toString_nat_injective hchain,
    addressText_injective h⟩

/-- A token's key is no block's: its second field is no hash. -/
theorem tokenScopedIdempotencyKey_ne :
    tokenScopedIdempotencyKey type chainId token ≠
      derivedJobIdempotencyKey type' chainId' blockHash transactionHash logIndex sourceKey := by
  intro h
  simp only [derivedJobIdempotencyKey, List.cons_append, List.nil_append] at h
  obtain ⟨-, h⟩ := joinTexts_cons_inj (colon_not_mem_toString _) (colon_not_mem_toString _)
    (by simp) (by simp) h
  obtain ⟨htype, -⟩ := joinTexts_cons_inj type.colon_not_mem_text (colon_not_mem_hashText _)
    (by simp) (by simp) h
  have hletter : type.text.toList.head? ≠ some '0' := by cases type <;> decide
  rw [htype] at hletter
  exact hletter (by simp [hashText])

end Keys

/-- The fields of a key. -/
inductive JobKey
  | token (type : DerivedJobType) (chainId : ℕ) (tokenAddress : Address)
  | block (type : DerivedJobType) (chainId : ℕ) (blockHash : Hash)
      (transactionHash : Option Hash) (logIndex : Option ℕ) (sourceKey : Option String)

def JobKey.text : JobKey → String
  | token type chainId tokenAddress => tokenScopedIdempotencyKey type chainId tokenAddress
  | block type chainId blockHash transactionHash logIndex sourceKey =>
    derivedJobIdempotencyKey type chainId blockHash transactionHash logIndex sourceKey

theorem JobKey.text_injective {k l : JobKey} (h : k.text = l.text) : k = l := by
  cases k with
  | token =>
    cases l with
    | token =>
      obtain ⟨rfl, rfl, rfl⟩ := tokenScopedIdempotencyKey_inj h
      rfl
    | block => exact absurd h tokenScopedIdempotencyKey_ne
  | block =>
    cases l with
    | token => exact absurd h.symm tokenScopedIdempotencyKey_ne
    | block =>
      obtain ⟨rfl, rfl, rfl, rfl, rfl, rfl⟩ := derivedJobIdempotencyKey_inj h
      rfl

/-! ## What a block hands to the queue -/

/-- A job with the key it is published under. -/
structure KeyedJob where
  job : DerivedJob
  key : String
deriving DecidableEq

/-- **The queue** takes a job unless one is pending under its key. -/
def addJob (pending : List KeyedJob) (entry : KeyedJob) : List KeyedJob :=
  if entry.key ∈ pending.map KeyedJob.key then pending else pending ++ [entry]

/-- The events the handler makes of logs, each with its log. -/
def routedEvents (adapters : List ProtocolAdapter) :
    List EventKey → List (Option RawChainLog) → List (RawChainLog × NormalizedProtocolEvent)
  | _, [] => []
  | keys, none :: logs => routedEvents adapters keys logs
  | keys, some raw :: logs =>
    match routeLog adapters keys raw with
    | some (some event, keys') => (raw, event) :: routedEvents adapters keys' logs
    | some (none, keys') => routedEvents adapters keys' logs
    | none => routedEvents adapters keys logs

namespace Indexer

variable (ix : Indexer)

/-- The events of a block, handled with these keys recorded. -/
def routed (keys : List EventKey) (b : BlockData) :
    List (RawChainLog × NormalizedProtocolEvent) :=
  match b.block.number, b.block.hash with
  | some number, some hash =>
    routedEvents ix.adapters keys (b.logs.map (parseRawChainLog ix.config number hash))
  | _, _ => []

/-- **The jobs collected for a block**, when nothing throws: the protocol
handler's, the oracle producer's and the discovery handler's, each under the
key its publisher makes. -/
def keyedJobs (keys : List EventKey) (b : BlockData) : List KeyedJob :=
  match b.block.number, b.block.hash with
  | some number, some hash =>
    ((ix.routed keys b).flatMap fun routed =>
      (protocolJobs routed.2).map fun job => ⟨job, protocolJobKey routed.2 job.type⟩) ++
    ((chainlinkJobs ix.config ix.sources number hash).map fun job =>
      ⟨job, derivedJobIdempotencyKey job.type job.chainId job.blockHash none none
        job.data.sourceKey⟩) ++
    (detectNewContractsAndTokens ix.config b).map fun job => ⟨job, idempotencyKeyFor job⟩
  | _, _ => []

end Indexer

/-- The event raises an alert. -/
def NormalizedProtocolEvent.Alerts (event : NormalizedProtocolEvent) : Prop :=
  .alertEvaluation ∈ (protocolJobs event).map DerivedJob.type

/-- **No job is swallowed**: jobs that differ have keys that do, the queue
takes all of them, and a token's key is only about the token and its type. -/
structure NoneSwallowed (ix : Indexer) (keys : List EventKey) (b : BlockData) : Prop where
  separated : ∀ x ∈ ix.keyedJobs keys b, ∀ y ∈ ix.keyedJobs keys b, x.job ≠ y.job → x.key ≠ y.key
  enqueued : ∀ x ∈ ix.keyedJobs keys b,
    x.job ∈ ((ix.keyedJobs keys b).foldl addJob []).map KeyedJob.job
  tokenScoped : ∀ x ∈ ix.keyedJobs keys b, ∀ type chainId token,
    x.key = tokenScopedIdempotencyKey type chainId token →
      x.job.type = type ∧ x.job.chainId = chainId ∧ x.job.data.tokenAddress = some token

/-- **What the keys keep apart**: a new pool of one token twice, and a log
that is a token's event or raises an alert, not both. -/
structure KeptApart (ix : Indexer) (keys : List EventKey) (b : BlockData) : Prop where
  pools : ∀ raw origin pool token0 token1,
    (raw, NormalizedProtocolEvent.pool origin pool token0 token1) ∈ ix.routed keys b →
      token0 = token1
  alerts : ∀ log ∈ b.logs, ∀ number hash, b.block.number = some number →
    b.block.hash = some hash → createTokenEventJobs ix.config log number hash ≠ [] →
      ∀ raw ∈ parseRawChainLog ix.config number hash log, ∀ event,
        (raw, event) ∈ ix.routed keys b → ¬event.Alerts

/-- **What the chain and the stores vouch for**: a block numbers its logs, its
transactions and the sources have their own keys, and an adapter's event is of
the log it is decoded from. -/
structure JobsNumbered (ix : Indexer) (b : BlockData) : Prop where
  logs : ∀ log ∈ b.logs, ∀ log' ∈ b.logs, ∀ i, log.logIndex = some i → log'.logIndex = some i →
    log = log'
  transactions : ∀ t ∈ b.transactions, ∀ t' ∈ b.transactions, t.hash = t'.hash → t = t'
  sources : ∀ s ∈ ix.sources, ∀ s' ∈ ix.sources, s.sourceKey = s'.sourceKey → s = s'
  events : ∀ raw key event, decodeAndNormalize ix.adapters raw = some (some (key, event)) →
    event.origin.chainId = raw.chainId ∧ event.origin.blockHash = raw.blockHash ∧
      event.origin.transactionHash = raw.transactionHash ∧ event.origin.logIndex = raw.logIndex

/-! ## Jobs by their fields -/

section Jobs

variable {cfg : IndexerConfig} {number : ℕ} {hash : Hash} {b : BlockData} {log : Log}
variable {job job' : DerivedJob} {event : NormalizedProtocolEvent} {raw : RawChainLog}

/-- What a job of an event carries, for a pool of one token. -/
def NormalizedProtocolEvent.jobData (type : DerivedJobType) : NormalizedProtocolEvent → JobData
  | pool o address token0 token1 =>
    .pool o.data address token0 token1 (if type = .tokenMetadata then some token0 else none) none
  | swap o address .. => .swap o.data address .swap
  | liquidity o eventType address token0 token1 .. =>
    .pool o.data address token0 token1 none (some (.liquidity eventType))
  | launchpadToken o token _ => .launchpad o.data token none
  | launchpadTrade o token .. | graduation o token _ =>
    .launchpad o.data token (some .launchpadTrade)
  | migration o token destinationKey destinationPool =>
    .launchpadMigration o.data token destinationKey destinationPool destinationPool
      .launchpadMigration

/-- **Its type tells a job of an event from the others**, but for the two
tokens of a pool. -/
theorem eq_of_mem_protocolJobs (hj : job ∈ protocolJobs event)
    (hpool : ∀ origin pool token0 token1,
      event = NormalizedProtocolEvent.pool origin pool token0 token1 → token0 = token1) :
    job = event.origin.job job.type (event.jobData job.type) := by
  cases event with
  | pool origin pool token0 token1 =>
    obtain rfl := hpool _ _ _ _ rfl
    simp only [protocolJobs, poolInitializationJobs, List.mem_cons, List.not_mem_nil,
      or_false] at hj
    rcases hj with rfl | rfl | rfl | rfl <;> rfl
  | liquidity origin eventType pool token0 token1 =>
    simp only [protocolJobs, liquidityDerivedJobs, List.mem_append, List.mem_map] at hj
    rcases hj with ⟨type, -, rfl⟩ | hj
    · rfl
    · split at hj
      · rw [List.mem_singleton.mp hj]
        rfl
      · exact absurd hj List.not_mem_nil
  | graduation origin token threshold =>
    cases threshold with
    | none => exact absurd hj List.not_mem_nil
    | some threshold =>
      rw [List.mem_singleton.mp hj]
      rfl
  | launchpadTrade =>
    rw [List.mem_singleton.mp hj]
    rfl
  | swap | launchpadToken | migration =>
    obtain ⟨type, -, rfl⟩ := List.mem_map.mp hj
    rfl

/-- The data is that of a token's event. -/
def JobData.IsTokenEvent : JobData → Prop
  | tokenTransfer .. | tokenApproval .. => True
  | _ => False

/-- The types of an event's jobs. -/
def NormalizedProtocolEvent.jobTypes : NormalizedProtocolEvent → List DerivedJobType
  | pool .. => [.poolRefresh, .tokenMetadata, .tokenMetadata, .riskAnalysis]
  | swap .. =>
    [.poolRefresh, .newPriceObservation, .marketMetric, .walletActivity, .alertEvaluation]
  | liquidity _ eventType .. =>
    [.poolRefresh, .sourceReconciliation, .liquidityMetric, .alertEvaluation] ++
      if eventType ∈ [.liquidityRemoved, .lpBurned, .positionDecreased] then [.riskAnalysis] else []
  | launchpadToken .. => [.tokenMetadata, .protocolEnrichment, .riskAnalysis]
  | launchpadTrade .. | graduation _ _ (some _) => [.alertEvaluation]
  | graduation _ _ none => []
  | migration .. =>
    [.bondingCurveMigrationTransition, .sourceReconciliation, .marketMetric, .alertEvaluation]

theorem map_type_protocolJobs (event : NormalizedProtocolEvent) :
    (protocolJobs event).map DerivedJob.type = event.jobTypes := by
  cases event with
  | liquidity origin eventType =>
    simp only [protocolJobs, liquidityDerivedJobs, NormalizedProtocolEvent.jobTypes]
    split <;> rfl
  | graduation origin token threshold => cases threshold <;> rfl
  | _ => rfl

/-- **A type that a token's event has too** comes with an alert. -/
theorem alerts_of_mem_protocolJobs (hj : job ∈ protocolJobs event)
    (htype : job.type ∈ [DerivedJobType.tokenTransfer, .tokenApproval, .alertEvaluation,
      .walletActivity]) : event.Alerts := by
  have hmem : job.type ∈ event.jobTypes := by
    rw [← map_type_protocolJobs]
    exact List.mem_map_of_mem hj
  rw [NormalizedProtocolEvent.Alerts, map_type_protocolJobs]
  revert hmem htype
  generalize job.type = type
  cases event with
  | liquidity => exact fun _ _ => List.mem_append_left _ (by decide)
  | graduation origin token threshold =>
    cases threshold with
    | none => exact fun _ h => absurd h List.not_mem_nil
    | some threshold => exact fun _ _ => List.mem_singleton_self _
  | _ =>
    simp only [NormalizedProtocolEvent.jobTypes]
    cases type <;> decide

/-- A job of an event is on the event's chain and carries no token's event. -/
theorem of_mem_protocolJobs (hj : job ∈ protocolJobs event) :
    job.chainId = event.origin.chainId ∧ ¬job.data.IsTokenEvent := by
  cases event with
  | pool =>
    simp only [protocolJobs, poolInitializationJobs, List.mem_cons, List.not_mem_nil,
      or_false] at hj
    rcases hj with rfl | rfl | rfl | rfl <;> exact ⟨rfl, not_false⟩
  | _ =>
    have heq := eq_of_mem_protocolJobs hj (by rintro _ _ _ _ ⟨⟩)
    rw [heq]
    exact ⟨rfl, not_false⟩

/-- The types of a transfer's jobs and of an approval's. -/
def tokenEventTypes : List (List DerivedJobType) :=
  [[.tokenTransfer, .alertEvaluation, .walletActivity], [.tokenApproval, .alertEvaluation]]

/-- **The jobs of a token's event**: one of each of its types, all of the log. -/
theorem createTokenEventJobs_shape (h : createTokenEventJobs cfg log number hash ≠ []) :
    ∃ jobs : List (DerivedJobType × JobData), createTokenEventJobs cfg log number hash =
        jobs.map (fun p => ⟨p.1, cfg.chainId, number, hash, p.2⟩) ∧
      jobs.map Prod.fst ∈ tokenEventTypes ∧
      ∀ p ∈ jobs, p.2.IsTokenEvent ∧ p.2.transactionHash = log.transactionHash ∧
        p.2.logIndex = log.logIndex ∧ log.transactionHash.isSome ∧ log.logIndex.isSome := by
  unfold createTokenEventJobs at h ⊢
  dsimp only at h ⊢
  split at h
  · exact absurd rfl h
  · rename_i htopic
    rw [if_neg htopic]
    split at h
    · rename_i transactionHash i htransaction hindex
      split at h
      · exact absurd rfl h
      · rename_i hwords
        rw [if_neg hwords]
        split at h
        · rename_i first second hfirst hsecond
          rw [htransaction, hindex]
          split
          · exact ⟨[(.tokenTransfer, _), (.alertEvaluation, _), (.walletActivity, _)], rfl,
              by simp [tokenEventTypes],
              by simp [JobData.IsTokenEvent, JobData.transactionHash, JobData.logIndex]⟩
          · exact ⟨[(.tokenApproval, _), (.alertEvaluation, _)], rfl,
              by simp [tokenEventTypes],
              by simp [JobData.IsTokenEvent, JobData.transactionHash, JobData.logIndex]⟩
        · exact absurd rfl h
    · exact absurd rfl h

theorem createTokenEventJobs_eq_of_type (hj : job ∈ createTokenEventJobs cfg log number hash)
    (hj' : job' ∈ createTokenEventJobs cfg log number hash) (htype : job.type = job'.type) :
    job = job' := by
  obtain ⟨jobs, hjobs, htypes, -⟩ := createTokenEventJobs_shape (List.ne_nil_of_mem hj)
  rw [hjobs] at hj hj'
  obtain ⟨p, hp, rfl⟩ := List.mem_map.mp hj
  obtain ⟨q, hq, rfl⟩ := List.mem_map.mp hj'
  have hnodup : ∀ types ∈ tokenEventTypes, types.Nodup := by decide
  rw [List.inj_on_of_nodup_map (hnodup _ htypes) hp hq htype]

theorem of_mem_createTokenEventJobs (hj : job ∈ createTokenEventJobs cfg log number hash) :
    (job.chainId = cfg.chainId ∧ job.blockHash = hash) ∧ job.data.IsTokenEvent ∧
      (job.data.transactionHash = log.transactionHash ∧ log.transactionHash.isSome) ∧
      (job.data.logIndex = log.logIndex ∧ log.logIndex.isSome) ∧
      job.type ∈ [DerivedJobType.tokenTransfer, .tokenApproval, .alertEvaluation,
        .walletActivity] := by
  obtain ⟨jobs, hjobs, htypes, hdata⟩ := createTokenEventJobs_shape (List.ne_nil_of_mem hj)
  rw [hjobs] at hj
  obtain ⟨p, hp, rfl⟩ := List.mem_map.mp hj
  obtain ⟨hevent, htransaction, hindex, hsome, hsome'⟩ := hdata p hp
  have hshared : ∀ types ∈ tokenEventTypes, ∀ type ∈ types, type ∈
      [DerivedJobType.tokenTransfer, .tokenApproval, .alertEvaluation, .walletActivity] := by decide
  exact ⟨⟨rfl, rfl⟩, hevent, ⟨htransaction, hsome⟩, ⟨hindex, hsome'⟩,
    hshared _ htypes _ (List.mem_map_of_mem hp)⟩

theorem exists_alert_of_ne_nil (h : createTokenEventJobs cfg log number hash ≠ []) :
    ∃ job ∈ createTokenEventJobs cfg log number hash, job.type = .alertEvaluation := by
  obtain ⟨jobs, hjobs, htypes, -⟩ := createTokenEventJobs_shape h
  have halert : ∀ types ∈ tokenEventTypes, .alertEvaluation ∈ types := by decide
  obtain ⟨p, hp, htype⟩ := List.mem_map.mp (halert _ htypes)
  rw [hjobs]
  exact ⟨_, List.mem_map_of_mem hp, htype⟩

/-- A creation is its transaction's. -/
theorem of_mem_createContractDiscoveryJobs
    (hj : job ∈ createContractDiscoveryJobs cfg b number hash) :
    ∃ t ∈ b.transactions, ∃ contractAddress,
      job = ⟨.contractCreation, cfg.chainId, number, hash,
        .contractCreation t.hash contractAddress t.fromAddress t.nonce⟩ ∧
      ∃ receipt, b.receipts.reverse.find? (fun r => r.transactionHash = t.hash) = some receipt ∧
        receipt.contractAddress = some contractAddress := by
  obtain ⟨t, ht, hjob⟩ := List.mem_filterMap.mp hj
  split at hjob
  · exact absurd hjob (by simp)
  · split at hjob
    · exact absurd hjob (by simp)
    · rename_i receipt hreceipt
      split at hjob
      · obtain ⟨contractAddress, hcontract, rfl⟩ := Option.map_eq_some_iff.mp hjob
        exact ⟨t, ht, contractAddress, rfl, receipt, hreceipt, hcontract⟩
      · exact absurd hjob (by simp)

/-- An oracle job is its source's. -/
theorem of_mem_chainlinkJobs {sources : List PriceSourceConfig}
    (hj : job ∈ chainlinkJobs cfg sources number hash) :
    ∃ source ∈ sources, ∃ contract heartbeat, source.sourceContractAddress = some contract ∧
      source.oracleHeartbeatSeconds = some heartbeat ∧
      job = ⟨.newPriceObservation, cfg.chainId, number, hash,
        .chainlinkSource source.sourceKey contract source.sourceAssetAddress
          source.quoteAssetAddress heartbeat source.sequencerFeedAddress⟩ := by
  obtain ⟨source, hsource, hjob⟩ := List.mem_filterMap.mp hj
  split at hjob
  · split at hjob
    · rename_i contract heartbeat hcontract hheartbeat
      exact ⟨source, hsource, contract, heartbeat, hcontract, hheartbeat,
        (Option.some.inj hjob).symm⟩
    · exact absurd hjob (by simp)
  · exact absurd hjob (by simp)

/-- A follow-up is its token's. -/
theorem of_mem_createTokenFollowUpJobs {jobs : List DerivedJob}
    (hj : job ∈ createTokenFollowUpJobs cfg jobs number hash) :
    ∃ type token, isTokenScopedJobType type = true ∧
      job = ⟨type, cfg.chainId, number, hash, .token token⟩ := by
  obtain ⟨token, -, hjob⟩ := List.mem_flatMap.mp hj
  simp only [List.mem_cons, List.not_mem_nil, or_false] at hjob
  rcases hjob with rfl | rfl
  · exact ⟨.tokenMetadata, token, rfl, rfl⟩
  · exact ⟨.discoveryRefresh, token, rfl, rfl⟩

theorem parseRawChainLog_eq_some (h : parseRawChainLog cfg number hash log = some raw) :
    raw.chainId = cfg.chainId ∧ raw.blockHash = hash ∧
      log.transactionHash = some raw.transactionHash ∧ log.logIndex = some raw.logIndex := by
  unfold parseRawChainLog at h
  simp only [Option.bind_eq_bind, Option.bind_eq_some_iff, Option.pure_def, Option.some.injEq] at h
  obtain ⟨transactionHash, htransaction, transactionIndex, -, logIndex, hindex, -, -, rfl⟩ := h
  exact ⟨rfl, rfl, htransaction, hindex⟩

theorem of_mem_routedEvents {adapters : List ProtocolAdapter} {keys : List EventKey}
    {logs : List (Option RawChainLog)} (h : (raw, event) ∈ routedEvents adapters keys logs) :
    some raw ∈ logs ∧ ∃ key, decodeAndNormalize adapters raw = some (some (key, event)) := by
  induction logs generalizing keys with
  | nil => exact absurd h List.not_mem_nil
  | cons log logs ih =>
    have hlater : ∀ {keys}, (raw, event) ∈ routedEvents adapters keys logs →
        some raw ∈ log :: logs ∧
          ∃ key, decodeAndNormalize adapters raw = some (some (key, event)) := by
      intro keys h
      exact ⟨List.mem_cons_of_mem _ (ih h).1, (ih h).2⟩
    cases log with
    | none => exact hlater h
    | some first =>
      simp only [routedEvents] at h
      split at h
      · rename_i e keys' hroute
        rcases List.mem_cons.mp h with heq | h
        · obtain ⟨rfl, rfl⟩ := Prod.mk.inj heq
          refine ⟨List.mem_cons_self, ?_⟩
          unfold routeLog at hroute
          simp only [Option.bind_eq_bind, Option.bind_eq_some_iff] at hroute
          obtain ⟨decoded, hdecoded, hroute⟩ := hroute
          split at hroute
          · simp at hroute
          · rename_i key found
            split at hroute
            · exact absurd hroute (by simp)
            · simp only [Option.pure_def, Option.some.injEq, Prod.mk.injEq] at hroute
              obtain ⟨rfl, -⟩ := hroute
              exact ⟨key, hdecoded⟩
        · exact hlater h
      · exact hlater h
      · exact hlater h

end Jobs

/-! ## Jobs by their keys -/

/-- **A job of a block with the fields of its key**, by where the key is made. -/
inductive FromBlock (ix : Indexer) (keys : List EventKey) (b : BlockData) (number : ℕ)
    (hash : Hash) : DerivedJob → JobKey → Prop
  | protocol {log : Log} {raw : RawChainLog} {event : NormalizedProtocolEvent} {key : EventKey}
      {job : DerivedJob} (mem : log ∈ b.logs)
      (parsed : parseRawChainLog ix.config number hash log = some raw)
      (routed : (raw, event) ∈ ix.routed keys b)
      (decoded : decodeAndNormalize ix.adapters raw = some (some (key, event)))
      (made : job ∈ protocolJobs event) :
      FromBlock ix keys b number hash job
        (.block job.type ix.config.chainId hash log.transactionHash log.logIndex none)
  | oracle {source : PriceSourceConfig} {contract : Address} {heartbeat : ℕ}
      (mem : source ∈ ix.sources) (contract_eq : source.sourceContractAddress = some contract)
      (heartbeat_eq : source.oracleHeartbeatSeconds = some heartbeat) :
      FromBlock ix keys b number hash
        ⟨.newPriceObservation, ix.config.chainId, number, hash,
          .chainlinkSource source.sourceKey contract source.sourceAssetAddress
            source.quoteAssetAddress heartbeat source.sequencerFeedAddress⟩
        (.block .newPriceObservation ix.config.chainId hash none none (some source.sourceKey))
  | creation {t : Transaction} {receipt : TransactionReceipt} {contractAddress : Address}
      (mem : t ∈ b.transactions)
      (receipt_eq : b.receipts.reverse.find? (fun r => r.transactionHash = t.hash) = some receipt)
      (contract_eq : receipt.contractAddress = some contractAddress) :
      FromBlock ix keys b number hash
        ⟨.contractCreation, ix.config.chainId, number, hash,
          .contractCreation t.hash contractAddress t.fromAddress t.nonce⟩
        (.block .contractCreation ix.config.chainId hash (some t.hash) none none)
  | tokenEvent {log : Log} {job : DerivedJob} (mem : log ∈ b.logs)
      (made : job ∈ createTokenEventJobs ix.config log number hash) :
      FromBlock ix keys b number hash job
        (.block job.type ix.config.chainId hash log.transactionHash log.logIndex none)
  | followUp {type : DerivedJobType} {token : Address}
      (byToken : isTokenScopedJobType type = true) :
      FromBlock ix keys b number hash ⟨type, ix.config.chainId, number, hash, .token token⟩
        (.token type ix.config.chainId token)

section Blocks

variable {ix : Indexer} {keys : List EventKey} {b : BlockData} {number : ℕ} {hash : Hash}
variable {job job' : DerivedJob} {k l : JobKey} {x y : KeyedJob}

/-- The protocol handler's key has the fields of the log. -/
theorem protocolJobKey_eq (hnumbered : JobsNumbered ix b) {log : Log} {raw : RawChainLog}
    {event : NormalizedProtocolEvent} {key : EventKey} (type : DerivedJobType)
    (hparse : parseRawChainLog ix.config number hash log = some raw)
    (hdecoded : decodeAndNormalize ix.adapters raw = some (some (key, event))) :
    protocolJobKey event type = (JobKey.block type ix.config.chainId hash log.transactionHash
      log.logIndex none).text := by
  obtain ⟨hchain, hblock, htransaction, hindex⟩ := parseRawChainLog_eq_some hparse
  obtain ⟨hchain', hblock', htransaction', hindex'⟩ := hnumbered.events raw key event hdecoded
  rw [JobKey.text, derivedJobIdempotencyKey, htransaction, hindex, ← hchain, ← hblock,
    protocolJobKey, hchain', hblock', htransaction', hindex']
  rfl

/-- So has the discovery handler's key of a token's event. -/
theorem idempotencyKeyFor_eq {log : Log}
    (hjob : job ∈ createTokenEventJobs ix.config log number hash) :
    idempotencyKeyFor job = (JobKey.block job.type ix.config.chainId hash log.transactionHash
      log.logIndex none).text := by
  obtain ⟨⟨hchain, hblock⟩, -, ⟨htransaction, -⟩, ⟨hindex, -⟩, htype⟩ :=
    of_mem_createTokenEventJobs hjob
  have hscoped : isTokenScopedJobType job.type = false := by
    revert htype
    generalize job.type = type
    cases type <;> decide
  rw [idempotencyKeyFor, hscoped, JobKey.text, hchain, hblock, htransaction, hindex]
  cases job.data.tokenAddress <;> rfl

theorem exists_log_of_mem_routed {raw : RawChainLog} {event : NormalizedProtocolEvent}
    (hnumber : b.block.number = some number) (hhash : b.block.hash = some hash)
    (h : (raw, event) ∈ ix.routed keys b) :
    ∃ log ∈ b.logs, parseRawChainLog ix.config number hash log = some raw ∧
      ∃ key, decodeAndNormalize ix.adapters raw = some (some (key, event)) := by
  simp only [Indexer.routed, hnumber, hhash] at h
  obtain ⟨hraw, hdecoded⟩ := of_mem_routedEvents h
  obtain ⟨log, hlog, hparse⟩ := List.mem_map.mp hraw
  exact ⟨log, hlog, hparse, hdecoded⟩

/-- **Every job of a block is published under the fields of its key.** -/
theorem exists_fromBlock (hnumbered : JobsNumbered ix b) (hnumber : b.block.number = some number)
    (hhash : b.block.hash = some hash) (hx : x ∈ ix.keyedJobs keys b) :
    ∃ k, x.key = k.text ∧ FromBlock ix keys b number hash x.job k := by
  simp only [Indexer.keyedJobs, hnumber, hhash, List.mem_append, List.mem_flatMap,
    List.mem_map] at hx
  rcases hx with (⟨⟨raw, event⟩, hrouted, job, hjob, rfl⟩ | ⟨job, hjob, rfl⟩) | ⟨job, hjob, rfl⟩
  · obtain ⟨log, hlog, hparse, key, hdecoded⟩ := exists_log_of_mem_routed hnumber hhash hrouted
    exact ⟨_, protocolJobKey_eq hnumbered _ hparse hdecoded,
      .protocol hlog hparse hrouted hdecoded hjob⟩
  · obtain ⟨source, hsource, contract, heartbeat, hcontract, hheartbeat, rfl⟩ :=
      of_mem_chainlinkJobs hjob
    exact ⟨_, rfl, .oracle hsource hcontract hheartbeat⟩
  · simp only [detectNewContractsAndTokens, hnumber, hhash, List.mem_append,
      List.mem_flatMap] at hjob
    rcases hjob with (hjob | ⟨log, hlog, hjob⟩) | hjob
    · obtain ⟨t, ht, contractAddress, rfl, receipt, hreceipt, hcontract⟩ :=
        of_mem_createContractDiscoveryJobs hjob
      exact ⟨_, rfl, .creation ht hreceipt hcontract⟩
    · exact ⟨_, idempotencyKeyFor_eq hjob, .tokenEvent hlog hjob⟩
    · obtain ⟨type, token, hscoped, rfl⟩ := of_mem_createTokenFollowUpJobs hjob
      refine ⟨_, ?_, .followUp hscoped⟩
      simp only [idempotencyKeyFor, JobData.tokenAddress, hscoped, JobKey.text]

theorem mem_keyedJobs_of_routed {raw : RawChainLog} {event : NormalizedProtocolEvent}
    (hnumber : b.block.number = some number) (hhash : b.block.hash = some hash)
    (h : (raw, event) ∈ ix.routed keys b) (hjob : job ∈ protocolJobs event) :
    ⟨job, protocolJobKey event job.type⟩ ∈ ix.keyedJobs keys b := by
  simp only [Indexer.keyedJobs, hnumber, hhash, List.mem_append, List.mem_flatMap, List.mem_map]
  exact Or.inl (Or.inl ⟨_, h, job, hjob, rfl⟩)

theorem mem_keyedJobs_of_tokenEvent {log : Log} (hnumber : b.block.number = some number)
    (hhash : b.block.hash = some hash) (hlog : log ∈ b.logs)
    (hjob : job ∈ createTokenEventJobs ix.config log number hash) :
    ⟨job, idempotencyKeyFor job⟩ ∈ ix.keyedJobs keys b := by
  simp only [Indexer.keyedJobs, hnumber, hhash, List.mem_append, List.mem_map]
  refine Or.inr ⟨job, ?_, rfl⟩
  simp only [detectNewContractsAndTokens, hnumber, hhash, List.mem_append, List.mem_flatMap]
  exact Or.inl (Or.inr ⟨log, hlog, hjob⟩)

/-- A log of one index is one log. -/
theorem JobsNumbered.log_eq (hnumbered : JobsNumbered ix b) {log log' : Log} (hlog : log ∈ b.logs)
    (hlog' : log' ∈ b.logs) (hsome : log.logIndex.isSome) (hindex : log.logIndex = log'.logIndex) :
    log = log' := by
  obtain ⟨i, hi⟩ := Option.isSome_iff_exists.mp hsome
  exact hnumbered.logs log hlog log' hlog' i hi (hindex ▸ hi)

/-- **The fields tell the jobs apart** where the block's events allow it. -/
theorem FromBlock.unique (hnumbered : JobsNumbered ix b) (hkept : KeptApart ix keys b)
    (hnumber : b.block.number = some number) (hhash : b.block.hash = some hash)
    (h : FromBlock ix keys b number hash job k) (h' : FromBlock ix keys b number hash job' l)
    (hkl : k = l) : job = job' := by
  -- A token's event and a protocol's of one log would both raise an alert.
  have hboth : ∀ {log log' : Log} {raw : RawChainLog} {event : NormalizedProtocolEvent}
      {j j' : DerivedJob}, log ∈ b.logs → log' ∈ b.logs →
      parseRawChainLog ix.config number hash log = some raw → (raw, event) ∈ ix.routed keys b →
      j ∈ protocolJobs event → j' ∈ createTokenEventJobs ix.config log' number hash →
      j.type = j'.type → log.logIndex = log'.logIndex → False := by
    intro log log' raw event j j' hlog hlog' hparse hrouted hj hj' htype hindex
    have hsome : log.logIndex.isSome := by rw [(parseRawChainLog_eq_some hparse).2.2.2]; rfl
    obtain rfl := hnumbered.log_eq hlog hlog' hsome hindex
    obtain ⟨-, -, -, -, hshared⟩ := of_mem_createTokenEventJobs hj'
    exact hkept.alerts log hlog number hash hnumber hhash (List.ne_nil_of_mem hj') raw hparse event
      hrouted (alerts_of_mem_protocolJobs hj (htype ▸ hshared))
  cases h with
  | @protocol log raw event key _ hlog hparse hrouted hdecoded hjob =>
    have hindex := (parseRawChainLog_eq_some hparse).2.2.2
    cases h' with
    | @protocol log' raw' event' key' _ hlog' hparse' hrouted' hdecoded' hjob' =>
      obtain ⟨htype, -, -, -, hsame, -⟩ := JobKey.block.inj hkl
      obtain rfl := hnumbered.log_eq hlog hlog' (by rw [hindex]; rfl) hsame
      obtain rfl := Option.some.inj (hparse.symm.trans hparse')
      have hpair := hdecoded.symm.trans hdecoded'
      simp only [Option.some.injEq, Prod.mk.injEq] at hpair
      obtain ⟨-, rfl⟩ := hpair
      have hpool : ∀ origin pool token0 token1,
          event = NormalizedProtocolEvent.pool origin pool token0 token1 → token0 = token1 :=
        fun origin pool token0 token1 heq =>
          hkept.pools raw origin pool token0 token1 (heq ▸ hrouted)
      rw [eq_of_mem_protocolJobs hjob hpool, eq_of_mem_protocolJobs hjob' hpool, htype]
    | oracle => exact absurd (JobKey.block.inj hkl).2.2.2.2.2 (by simp)
    | creation => exact absurd (JobKey.block.inj hkl).2.2.2.2.1 (by simp [hindex])
    | tokenEvent hlog' hjob' =>
      obtain ⟨htype, -, -, -, hsame, -⟩ := JobKey.block.inj hkl
      exact (hboth hlog hlog' hparse hrouted hjob hjob' htype hsame).elim
    | followUp => exact JobKey.noConfusion hkl
  | oracle hsource hcontract hheartbeat =>
    cases h' with
    | oracle hsource' hcontract' hheartbeat' =>
      have hkey := Option.some.inj (JobKey.block.inj hkl).2.2.2.2.2
      obtain rfl := hnumbered.sources _ hsource _ hsource' hkey
      obtain rfl := Option.some.inj (hcontract.symm.trans hcontract')
      obtain rfl := Option.some.inj (hheartbeat.symm.trans hheartbeat')
      rfl
    | followUp => exact JobKey.noConfusion hkl
    | _ => exact absurd (JobKey.block.inj hkl).2.2.2.2.2 (by simp)
  | creation ht hreceipt hcontract =>
    cases h' with
    | protocol hlog' hparse' =>
      exact absurd (JobKey.block.inj hkl).2.2.2.2.1
        (by simp [(parseRawChainLog_eq_some hparse').2.2.2])
    | oracle => exact absurd (JobKey.block.inj hkl).2.2.2.2.2 (by simp)
    | creation ht' hreceipt' hcontract' =>
      have hsame := Option.some.inj (JobKey.block.inj hkl).2.2.2.1
      obtain rfl := hnumbered.transactions _ ht _ ht' hsame
      obtain rfl := Option.some.inj (hreceipt.symm.trans hreceipt')
      obtain rfl := Option.some.inj (hcontract.symm.trans hcontract')
      rfl
    | tokenEvent hlog' hjob' =>
      obtain ⟨-, -, -, ⟨-, hsome⟩, -⟩ := of_mem_createTokenEventJobs hjob'
      rw [← (JobKey.block.inj hkl).2.2.2.2.1] at hsome
      exact absurd hsome (by simp)
    | followUp => exact JobKey.noConfusion hkl
  | @tokenEvent log _ hlog hjob =>
    obtain ⟨-, -, -, ⟨-, hsome⟩, -⟩ := of_mem_createTokenEventJobs hjob
    cases h' with
    | protocol hlog' hparse' hrouted' hdecoded' hjob' =>
      obtain ⟨htype, -, -, -, hsame, -⟩ := JobKey.block.inj hkl
      exact (hboth hlog' hlog hparse' hrouted' hjob' hjob htype.symm hsame.symm).elim
    | oracle => exact absurd (JobKey.block.inj hkl).2.2.2.2.2 (by simp)
    | creation =>
      rw [(JobKey.block.inj hkl).2.2.2.2.1] at hsome
      exact absurd hsome (by simp)
    | tokenEvent hlog' hjob' =>
      obtain ⟨htype, -, -, -, hsame, -⟩ := JobKey.block.inj hkl
      obtain rfl := hnumbered.log_eq hlog hlog' hsome hsame
      exact createTokenEventJobs_eq_of_type hjob hjob' htype
    | followUp => exact JobKey.noConfusion hkl
  | followUp =>
    cases h' with
    | followUp =>
      obtain ⟨rfl, -, rfl⟩ := JobKey.token.inj hkl
      rfl
    | _ => exact JobKey.noConfusion hkl

/-! ## The queue -/

theorem mem_addJob {pending : List KeyedJob} {entry : KeyedJob} :
    x ∈ addJob pending entry ↔ x ∈ pending ∨ x = entry ∧ entry.key ∉ pending.map KeyedJob.key := by
  unfold addJob
  split
  · rename_i h
    simp [h]
  · rename_i h
    simp [h]

/-- **Some job is pending under each key** that was added. -/
theorem exists_pending {entries pending : List KeyedJob} (hx : x ∈ entries ∨ x ∈ pending) :
    ∃ y ∈ entries.foldl addJob pending, y.key = x.key ∧ (y ∈ entries ∨ y ∈ pending) := by
  induction entries generalizing pending x with
  | nil => exact ⟨x, hx.resolve_left List.not_mem_nil, rfl, hx⟩
  | cons entry entries ih =>
    have hlater : ∀ {z : KeyedJob}, z ∈ entries ∨ z ∈ addJob pending entry → z.key = x.key →
        ∃ y ∈ (entry :: entries).foldl addJob pending, y.key = x.key ∧
          (y ∈ entry :: entries ∨ y ∈ pending) := by
      intro z hz hkey
      obtain ⟨y, hy, hyz, hmem⟩ := ih hz
      refine ⟨y, hy, hyz.trans hkey, ?_⟩
      rcases hmem with hmem | hmem
      · exact Or.inl (List.mem_cons_of_mem _ hmem)
      · rcases mem_addJob.mp hmem with hmem | ⟨rfl, -⟩
        · exact Or.inr hmem
        · exact Or.inl List.mem_cons_self
    rcases hx with hx | hx
    · rcases List.mem_cons.mp hx with rfl | hx
      · by_cases hfree : x.key ∈ pending.map KeyedJob.key
        · obtain ⟨z, hz, hkey⟩ := List.mem_map.mp hfree
          exact hlater (Or.inr (mem_addJob.mpr (Or.inl hz))) hkey
        · exact hlater (Or.inr (mem_addJob.mpr (Or.inr ⟨rfl, hfree⟩))) rfl
      · exact hlater (Or.inl hx) rfl
    · exact hlater (Or.inr (mem_addJob.mpr (Or.inl hx))) rfl

/-- **Jobs with keys of their own are all taken.** -/
theorem job_mem_of_separated {entries : List KeyedJob}
    (h : ∀ x ∈ entries, ∀ y ∈ entries, x.job ≠ y.job → x.key ≠ y.key) (hx : x ∈ entries) :
    x.job ∈ (entries.foldl addJob []).map KeyedJob.job := by
  obtain ⟨y, hy, hkey, hmem⟩ := exists_pending (Or.inl hx : x ∈ entries ∨ x ∈ [])
  have hsame : y.job = x.job := by
    by_contra hne
    exact h y (hmem.resolve_right List.not_mem_nil) x hx hne hkey
  exact List.mem_map.mpr ⟨y, hy, hsame⟩

/-- **No job of a block is swallowed exactly when its events keep their keys
apart.** -/
theorem noneSwallowed_iff (hnumbered : JobsNumbered ix b) :
    NoneSwallowed ix keys b ↔ KeptApart ix keys b := by
  constructor
  · intro h
    constructor
    · intro raw origin pool token0 token1 hrouted
      by_contra hne
      cases hnumber : b.block.number with
      | none => simp [Indexer.routed, hnumber] at hrouted
      | some number =>
        cases hhash : b.block.hash with
        | none => simp [Indexer.routed, hnumber, hhash] at hrouted
        | some hash =>
          refine h.separated _ (mem_keyedJobs_of_routed hnumber hhash hrouted
              (List.mem_cons_of_mem _ List.mem_cons_self)) _
            (mem_keyedJobs_of_routed hnumber hhash hrouted
              (List.mem_cons_of_mem _ (List.mem_cons_of_mem _ List.mem_cons_self))) ?_ rfl
          simp [EventOrigin.job, hne]
    · intro log hlog number hash hnumber hhash hevent raw hparse event hrouted halerts
      obtain ⟨job, hjob, htype⟩ := List.mem_map.mp halerts
      obtain ⟨job', hjob', htype'⟩ := exists_alert_of_ne_nil hevent
      obtain ⟨-, -, -, key, hdecoded⟩ := exists_log_of_mem_routed hnumber hhash hrouted
      refine h.separated _ (mem_keyedJobs_of_routed hnumber hhash hrouted hjob) _
        (mem_keyedJobs_of_tokenEvent hnumber hhash hlog hjob') ?_ ?_
      · intro hsame
        obtain ⟨-, hnot⟩ := of_mem_protocolJobs hjob
        obtain ⟨-, htoken, -⟩ := of_mem_createTokenEventJobs hjob'
        have hsame : job = job' := hsame
        exact hnot (hsame ▸ htoken)
      · rw [protocolJobKey_eq hnumbered _ hparse hdecoded, idempotencyKeyFor_eq hjob', htype,
          htype']
  · intro hkept
    have hfrom : ∀ x ∈ ix.keyedJobs keys b, ∃ number hash k, b.block.number = some number ∧
        b.block.hash = some hash ∧ x.key = k.text ∧ FromBlock ix keys b number hash x.job k := by
      intro x hx
      cases hnumber : b.block.number with
      | none => simp [Indexer.keyedJobs, hnumber] at hx
      | some number =>
        cases hhash : b.block.hash with
        | none => simp [Indexer.keyedJobs, hnumber, hhash] at hx
        | some hash =>
          obtain ⟨k, hk, hfrom⟩ := exists_fromBlock hnumbered hnumber hhash hx
          exact ⟨number, hash, k, rfl, rfl, hk, hfrom⟩
    have hseparated : ∀ x ∈ ix.keyedJobs keys b, ∀ y ∈ ix.keyedJobs keys b,
        x.job ≠ y.job → x.key ≠ y.key := by
      intro x hx y hy hne hkey
      obtain ⟨number, hash, k, hnumber, hhash, hk, hjob⟩ := hfrom x hx
      obtain ⟨number', hash', l, hnumber', hhash', hl, hjob'⟩ := hfrom y hy
      obtain rfl := Option.some.inj (hnumber.symm.trans hnumber')
      obtain rfl := Option.some.inj (hhash.symm.trans hhash')
      exact hne (hjob.unique hnumbered hkept hnumber hhash hjob'
        (JobKey.text_injective (hk.symm.trans (hkey.trans hl))))
    refine ⟨hseparated, fun x hx => job_mem_of_separated hseparated hx, ?_⟩
    intro x hx type chainId token hkey
    obtain ⟨number, hash, k, -, -, hk, hjob⟩ := hfrom x hx
    obtain rfl : k = .token type chainId token := JobKey.text_injective (hk.symm.trans hkey)
    generalize x.job = job at hjob
    cases hjob
    exact ⟨rfl, rfl, rfl⟩

/-! ## The indexer's own effects -/

/-- Handled logs add the jobs of their events. -/
theorem performAll_handleLogs (ix : Indexer) (es : List Effect) (raws : List (Option RawChainLog)) (w : World) :
    ∃ w', w'.queue = w.queue ++ (routedEvents ix.adapters w.processedEventKeys raws).flatMap
        (fun routed => protocolJobs routed.2) ∧
      ix.performAll w (raws.map (fun raw => .handleLog raw none) ++ es) = ix.performAll w' es := by
  induction raws generalizing w with
  | nil => exact ⟨w, by simp [routedEvents], rfl⟩
  | cons raw raws ih =>
    let next : World :=
      { w with
        processedEventKeys := (handle ix.adapters w.processedEventKeys raw none).1
        repository := w.repository ++ (handle ix.adapters w.processedEventKeys raw
          none).2.filterMap HandlerCall.repositoryCall
        queue := w.queue ++ (handle ix.adapters w.processedEventKeys raw
          none).2.filterMap HandlerCall.job }
    have hperform : ix.perform w (.handleLog raw none) = some next := rfl
    obtain ⟨w', hqueue, hrest⟩ := ih next
    refine ⟨w', ?_, ?_⟩
    · rw [hqueue]
      cases raw with
      | none => simp [next, routedEvents, handle]
      | some raw =>
        cases hroute : routeLog ix.adapters w.processedEventKeys raw with
        | none => simp [next, routedEvents, handle, hroute]
        | some answer =>
          obtain ⟨event, keys'⟩ := answer
          cases event with
          | none => simp [next, routedEvents, handle, hroute]
          | some event => simp [next, routedEvents, handle, hroute, callsMade,
              filterMap_handlerCalls.2]
    · rw [List.map_cons, List.cons_append, Indexer.performAll, hperform]
      exact hrest

theorem performAll_publish (ix : Indexer) (es : List Effect) (jobs : List DerivedJob) (w : World) :
    ix.performAll w (jobs.map .publish ++ es) =
      ix.performAll { w with queue := w.queue ++ jobs } es := by
  induction jobs generalizing w with
  | nil => rw [List.map_nil, List.nil_append, List.append_nil]
  | cons job jobs ih =>
    rw [List.map_cons, List.cons_append, Indexer.performAll]
    have hperform : ix.perform w (.publish job) = some { w with queue := w.queue ++ [job] } := rfl
    rw [hperform]
    dsimp only
    rw [ih, List.append_assoc, List.singleton_append]

theorem queue_publishEffects (jobs : List DerivedJob) (w : World) :
    (ix.performAll w (ix.publishEffects jobs)).1.queue = w.queue ++ jobs := by
  unfold Indexer.publishEffects
  split
  · rename_i hempty
    rw [List.isEmpty_iff.mp hempty, List.append_nil]
    rfl
  · split
    · rfl
    · have hall := performAll_publish ix [] jobs w
      rw [List.append_nil] at hall
      rw [hall]
      rfl

/-- **The jobs collected for a block are those the indexer hands on**, when
nothing throws. -/
theorem queue_collected {w : World} {a : Answers} (hfail : ∀ raw, a.failAt raw = none) :
    (ix.performAll w (ix.collectEffects a b ++
        ix.publishEffects (detectNewContractsAndTokens ix.config b))).1.queue =
      w.queue ++ (ix.keyedJobs w.processedEventKeys b).map KeyedJob.job := by
  have hnone : ∀ raw : Option RawChainLog, raw.bind a.failAt = none := by
    intro raw
    cases raw with
    | none => rfl
    | some raw => exact hfail raw
  cases hnumber : b.block.number with
  | none =>
    simp [Indexer.collectEffects, Indexer.keyedJobs, detectNewContractsAndTokens, hnumber,
      Indexer.publishEffects, Indexer.performAll]
  | some number =>
    cases hhash : b.block.hash with
    | none =>
      simp [Indexer.collectEffects, Indexer.keyedJobs, detectNewContractsAndTokens, hnumber, hhash,
        Indexer.publishEffects, Indexer.performAll]
    | some hash =>
      have hcollect : ix.collectEffects a b =
          (b.logs.map (parseRawChainLog ix.config number hash)).map (fun raw => .handleLog raw none)
            ++ (chainlinkJobs ix.config ix.sources number hash).map .publish := by
        simp [Indexer.collectEffects, hnumber, hhash, hnone]
      obtain ⟨w', hqueue, hrest⟩ := performAll_handleLogs ix
        ((chainlinkJobs ix.config ix.sources number hash).map .publish ++
          ix.publishEffects (detectNewContractsAndTokens ix.config b))
        (b.logs.map (parseRawChainLog ix.config number hash)) w
      rw [hcollect, List.append_assoc, hrest, performAll_publish, queue_publishEffects]
      simp [hqueue, Indexer.keyedJobs, Indexer.routed, hnumber, hhash, List.map_flatMap,
        Function.comp_def]

end Blocks

/-! ## A new pool -/

/-- An adapter to which every log is an event of one kind. -/
def kindAdapter (kind : ProtocolEventKind)
    (eventOf : EventOrigin → NormalizedProtocolEvent) : ProtocolAdapter where
  chainId := 1
  supportsAddress _ := true
  decodeLog raw := some (some ⟨kind, raw.chainId, raw.blockHash, raw.transactionHash, raw.logIndex⟩)
  decoders := .dex
    (fun decoded => some (some (eventOf ⟨decoded.chainId, "uniswap-v2", "2", 5, decoded.blockHash,
      decoded.transactionHash, decoded.logIndex, true⟩)))
    (fun _ => some none)
    fun _ => some none

/-- Pools of two tokens. -/
def Indexer.withPools (token0 token1 : Address) : Indexer :=
  { Indexer.bare with
    adapters := [kindAdapter .poolCreated fun origin => .pool origin ⟨7⟩ token0 token1] }

theorem jobsNumbered_withPools (token0 token1 : Address) :
    JobsNumbered (.withPools token0 token1) swapBlock where
  logs log hlog log' hlog' _ _ _ := by
    rw [List.mem_singleton.mp hlog, List.mem_singleton.mp hlog']
  transactions t ht := absurd ht List.not_mem_nil
  sources s hs := absurd hs List.not_mem_nil
  events raw key event h := by
    unfold decodeAndNormalize at h
    split at h
    · simp at h
    · rename_i adapter hfind
      obtain rfl := List.mem_singleton.mp (List.mem_of_find?_eq_some hfind)
      simp only [kindAdapter, normalize, Option.bind_eq_bind, Option.bind_some, Option.pure_def,
        Option.map_some, Option.some.injEq, Prod.mk.injEq] at h
      obtain ⟨rfl, rfl⟩ := h
      exact ⟨rfl, rfl, rfl, rfl⟩

/-- Here a pool of one token, and no job swallowed. -/
theorem noneSwallowed_sample :
    NoneSwallowed (.withPools ⟨1⟩ ⟨1⟩) [] swapBlock ↔ KeptApart (.withPools ⟨1⟩ ⟨1⟩) [] swapBlock :=
  noneSwallowed_iff (jobsNumbered_withPools ⟨1⟩ ⟨1⟩)

theorem queue_collected_swapBlock :
    let ix := Indexer.withPools ⟨1⟩ ⟨1⟩
    (ix.performAll World.empty (ix.collectEffects (.ofBlocks 5 [swapBlock]) swapBlock ++
        ix.publishEffects (detectNewContractsAndTokens ix.config swapBlock))).1.queue =
      World.empty.queue ++
        (ix.keyedJobs World.empty.processedEventKeys swapBlock).map KeyedJob.job :=
  queue_collected fun _ => rfl

/-- **The second token's metadata is swallowed**: both tokens of a new pool
have their metadata asked for under one key. -/
theorem not_noneSwallowed :
    ¬∀ (ix : Indexer) (keys : List EventKey) (b : BlockData), JobsNumbered ix b →
      NoneSwallowed ix keys b := by
  intro h
  let origin : EventOrigin := ⟨1, "uniswap-v2", "2", 5, ⟨5⟩, ⟨1⟩, 0, true⟩
  have hrouted : ((Indexer.withPools ⟨1⟩ ⟨2⟩).routed [] swapBlock).map Prod.snd =
      [.pool origin ⟨7⟩ ⟨1⟩ ⟨2⟩] := by decide
  obtain ⟨⟨raw, event⟩, hmem, hevent⟩ := List.mem_map.mp (hrouted ▸ List.mem_singleton_self _)
  obtain rfl : event = .pool origin ⟨7⟩ ⟨1⟩ ⟨2⟩ := hevent
  have hnone := h (.withPools ⟨1⟩ ⟨2⟩) [] swapBlock (jobsNumbered_withPools ⟨1⟩ ⟨2⟩)
  refine hnone.separated _ (mem_keyedJobs_of_routed rfl rfl hmem
      (List.mem_cons_of_mem _ List.mem_cons_self)) _
    (mem_keyedJobs_of_routed rfl rfl hmem
      (List.mem_cons_of_mem _ (List.mem_cons_of_mem _ List.mem_cons_self))) ?_ rfl
  decide

end HoodSentry
