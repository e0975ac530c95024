import HoodSentry.Chain.Model.Quotes
import HoodSentry.Common.Machine
import HoodSentry.Common.OrderedMap
/-!
# The quotes a trading service remembers

`rememberQuote` and `requireQuote` of `apps/api/src/trading-service.ts`. A
quote that `quote` returns is kept for `prepareSwap` in a bounded map: what
has expired goes at the next write, and then the oldest entries until there
is room. `getTime` is that of `new Date(text)`, with none for `NaN`.

What a request for a quote answers is the last one remembered under its id,
and unexpired (`quotesHeld_of_reachable`); and until it expires a quote is
answered, whatever the other calls are, while they remember fewer quotes
than the map has room for (`requireQuote_of_remembered`).
-/

namespace HoodSentry

namespace Trading

def MAX_CACHED_QUOTES : ℕ := 5000

theorem MAX_CACHED_QUOTES_pos : 0 < MAX_CACHED_QUOTES := by
  unfold MAX_CACHED_QUOTES
  omega

abbrev QuoteCache : Type := OrderedMap String NormalizedQuote

inductive QuoteRefusal
  | unknown | expired
deriving DecidableEq

section Model

variable (getTime : String → Option ℤ) (now : ℤ)

/-- An expiry that is no date never comes. -/
def isExpired (quote : NormalizedQuote) : Bool := (getTime quote.expiresAt).any (· ≤ now)

def rememberQuote (quotes : QuoteCache) (quote : NormalizedQuote) : QuoteCache :=
  quotes.remember (isExpired getTime now) MAX_CACHED_QUOTES quote.quoteId quote

/-- What it answers, and the quotes it leaves. -/
def requireQuote (quotes : QuoteCache) (quoteId : String) :
    Except QuoteRefusal NormalizedQuote × QuoteCache :=
  match quotes.get? quoteId with
  | none => (.error .unknown, quotes)
  | some quote =>
    if isExpired getTime now quote then
      (.error .expired, quotes.deleteWhere fun entry => entry.1 = quoteId)
    else (.ok quote, quotes)

end Model

/-- A call and the clock it reads. -/
inductive QuoteCall
  | remember (quote : NormalizedQuote) (now : ℤ)
  | require (quoteId : String) (now : ℤ)

namespace QuoteCall

def now : QuoteCall → ℤ
  | .remember _ now | .require _ now => now

def remembers : QuoteCall → Option NormalizedQuote
  | .remember quote _ => some quote
  | .require _ _ => none

end QuoteCall

/-- The service's quotes. `remembered` is not the program's: it lists every
quote remembered so far, the last one first. -/
structure QuoteService where
  quotes : QuoteCache
  remembered : List NormalizedQuote

/-- **The calls of a service**, which each run in one turn. -/
def quoteMachine (getTime : String → Option ℤ) : Machine QuoteService QuoteCall where
  Init s := s.quotes = ∅ ∧ s.remembered = []
  step s
    | .remember quote now =>
      some ⟨rememberQuote getTime now s.quotes quote, quote :: s.remembered⟩
    | .require quoteId now =>
      some { s with quotes := (requireQuote getTime now s.quotes quoteId).2 }

/-! ## What is answered -/

section Answers

variable {getTime : String → Option ℤ} {now : ℤ} {quotes : QuoteCache} {s t : QuoteService}
variable {quoteId : String} {quote : NormalizedQuote} {call : QuoteCall} {calls : List QuoteCall}

theorem length_rememberQuote_le :
    (rememberQuote getTime now quotes quote).rows.length ≤ MAX_CACHED_QUOTES := by
  unfold rememberQuote
  exact OrderedMap.length_remember_le MAX_CACHED_QUOTES_pos

theorem mem_of_mem_rememberQuote {other : NormalizedQuote}
    (h : (quoteId, other) ∈ rememberQuote getTime now quotes quote) :
    quoteId = quote.quoteId ∧ other = quote ∨
      quoteId ≠ quote.quoteId ∧ (quoteId, other) ∈ quotes := by
  unfold rememberQuote at h
  exact (OrderedMap.mem_of_mem_remember h).imp_right fun hold => ⟨hold.1, hold.2.1⟩

theorem requireQuote_eq_ok_iff : (requireQuote getTime now quotes quoteId).1 = .ok quote ↔
    quotes.get? quoteId = some quote ∧ isExpired getTime now quote = false := by
  unfold requireQuote
  cases hget : quotes.get? quoteId with
  | none => simp
  | some found =>
    dsimp only
    split
    · rename_i hexpired
      refine iff_of_false (by simp) ?_
      rintro ⟨hfound, hlive⟩
      cases Option.some.inj hfound
      rw [hexpired] at hlive
      cases hlive
    · rename_i hlive
      constructor
      · intro h
        cases Except.ok.inj h
        exact ⟨rfl, by simpa using hlive⟩
      · rintro ⟨hfound, -⟩
        cases Option.some.inj hfound
        rfl

/-- Asking only ever deletes what has expired. -/
theorem requireQuote_snd (getTime : String → Option ℤ) (now : ℤ) (quotes : QuoteCache)
    (quoteId : String) : (requireQuote getTime now quotes quoteId).2 = quotes ∨
    (∃ found, quotes.get? quoteId = some found ∧ isExpired getTime now found = true) ∧
      (requireQuote getTime now quotes quoteId).2 =
        quotes.deleteWhere fun entry => entry.1 = quoteId := by
  unfold requireQuote
  cases hget : quotes.get? quoteId with
  | none => exact Or.inl rfl
  | some found =>
    dsimp only
    split
    · rename_i hexpired
      exact Or.inr ⟨⟨found, rfl, hexpired⟩, rfl⟩
    · exact Or.inl rfl

/-- No call is refused. -/
theorem exists_exec (s : QuoteService) (calls : List QuoteCall) :
    ∃ t, (quoteMachine getTime).exec s calls = some t := by
  induction calls generalizing s with
  | nil => exact ⟨s, rfl⟩
  | cons call calls ih =>
    obtain ⟨next, hs⟩ : ∃ next, (quoteMachine getTime).step s call = some next := by
      cases call <;> exact ⟨_, rfl⟩
    obtain ⟨t, ht⟩ := ih next
    exact ⟨t, Option.bind_eq_some_iff.mpr ⟨next, hs, ht⟩⟩

/-- **The invariant**: within the bound, each entry is the last quote
remembered under its id. -/
structure QuotesInvariant (s : QuoteService) : Prop where
  size : s.quotes.rows.length ≤ MAX_CACHED_QUOTES
  latest : ∀ quoteId quote, (quoteId, quote) ∈ s.quotes →
    s.remembered.find? (fun q => q.quoteId = quoteId) = some quote

/-- **The step lemma.** -/
theorem QuotesInvariant.step (h : QuotesInvariant s)
    (hs : (quoteMachine getTime).step s call = some t) : QuotesInvariant t := by
  cases call with
  | remember quote now =>
    cases Option.some.inj hs
    have hsize : (rememberQuote getTime now s.quotes quote).rows.length ≤ MAX_CACHED_QUOTES :=
      length_rememberQuote_le
    refine ⟨hsize, fun quoteId other hmem => ?_⟩
    have hmem : (quoteId, other) ∈ rememberQuote getTime now s.quotes quote := hmem
    rcases mem_of_mem_rememberQuote hmem with ⟨rfl, rfl⟩ | ⟨hne, hold⟩
    · exact List.find?_cons_of_pos (decide_eq_true rfl)
    · have hother : decide (quote.quoteId = quoteId) = false := decide_eq_false (Ne.symm hne)
      rw [List.find?_cons, hother]
      exact h.latest quoteId other hold
  | require quoteId now =>
    cases Option.some.inj hs
    rcases requireQuote_snd getTime now s.quotes quoteId with hsame | ⟨-, hdeleted⟩
    · rw [hsame]
      exact h
    · rw [hdeleted]
      exact ⟨(List.length_filter_le _ _).trans h.size, fun id other hmem =>
        h.latest id other (Table.mem_deleteWhere.mp hmem).1⟩

/-- **What a service answers**, in every state. -/
structure QuotesHeld (getTime : String → Option ℤ) (s : QuoteService) : Prop where
  size : s.quotes.rows.length ≤ MAX_CACHED_QUOTES
  latest : ∀ now quoteId quote, (requireQuote getTime now s.quotes quoteId).1 = .ok quote →
    s.remembered.find? (fun q => q.quoteId = quoteId) = some quote ∧
      isExpired getTime now quote = false

/-- **Only the last quote of an id is answered, and only unexpired.** -/
theorem quotesHeld_of_reachable (h : (quoteMachine getTime).Reachable s) :
    QuotesHeld getTime s := by
  have hinvariant : QuotesInvariant s := by
    refine h.invariant (fun s h0 => ?_) fun s i t hI _ hs => hI.step hs
    obtain ⟨hquotes, -⟩ := h0
    refine ⟨?_, fun quoteId quote hmem => ?_⟩
    · rw [hquotes]
      exact Nat.zero_le _
    · rw [hquotes] at hmem
      cases hmem
  refine ⟨hinvariant.size, fun now quoteId quote hok => ?_⟩
  obtain ⟨hget, hlive⟩ := requireQuote_eq_ok_iff.mp hok
  exact ⟨hinvariant.latest quoteId quote (OrderedMap.get?_eq_some_iff.mp hget), hlive⟩

/-! ## How long a quote is kept -/

/-- **A call that spares a quote**: it remembers no other under its id, and
comes before its expiry. -/
def Spares (getTime : String → Option ℤ) (quote : NormalizedQuote) (call : QuoteCall) : Prop :=
  (∀ other ∈ call.remembers, other.quoteId ≠ quote.quoteId) ∧
    isExpired getTime call.now quote = false

/-- How many quotes some calls remember. -/
def rememberedIn (calls : List QuoteCall) : ℕ := calls.countP (·.remembers.isSome)

theorem recent_rememberQuote {n : ℕ} {other : NormalizedQuote}
    (h : quotes.Recent n quote.quoteId quote) (hlive : isExpired getTime now quote = false)
    (hne : other.quoteId ≠ quote.quoteId) (hroom : n + 1 < MAX_CACHED_QUOTES) :
    (rememberQuote getTime now quotes other).Recent (n + 1) quote.quoteId quote := by
  unfold rememberQuote
  exact h.remember hlive hne hroom

theorem recent_rememberQuote_self (hfresh : quote.quoteId ∉ quotes.keys) :
    (rememberQuote getTime now quotes quote).Recent 0 quote.quoteId quote := by
  unfold rememberQuote
  exact OrderedMap.recent_remember hfresh

theorem recent_step {n : ℕ} (h : s.quotes.Recent n quote.quoteId quote)
    (hspares : Spares getTime quote call) (hroom : n + rememberedIn [call] < MAX_CACHED_QUOTES)
    (hs : (quoteMachine getTime).step s call = some t) :
    t.quotes.Recent (n + rememberedIn [call]) quote.quoteId quote := by
  obtain ⟨hother, hlive⟩ := hspares
  cases call with
  | remember other now =>
    cases Option.some.inj hs
    have hone : rememberedIn [.remember other now] = 1 := rfl
    rw [hone] at hroom ⊢
    dsimp only
    exact recent_rememberQuote h hlive (hother other rfl) hroom
  | require quoteId now =>
    cases Option.some.inj hs
    rcases requireQuote_snd getTime now s.quotes quoteId with hsame | ⟨⟨found, hfound, hexpired⟩, hdeleted⟩
    · rw [hsame]
      exact h
    · rw [hdeleted]
      refine h.deleteWhere (decide_eq_false fun hid => ?_)
      -- the deleted entry has expired, and the quote has not
      have hid : quote.quoteId = quoteId := hid
      rw [← hid, h.get?] at hfound
      cases Option.some.inj hfound
      rw [show isExpired getTime now quote = false from hlive] at hexpired
      cases hexpired

/-- **The run lemma.** -/
theorem recent_exec {n : ℕ} (h : s.quotes.Recent n quote.quoteId quote)
    (hspares : ∀ call ∈ calls, Spares getTime quote call)
    (hroom : n + rememberedIn calls < MAX_CACHED_QUOTES)
    (hexec : (quoteMachine getTime).exec s calls = some t) :
    t.quotes.Recent (n + rememberedIn calls) quote.quoteId quote := by
  induction calls generalizing s n with
  | nil =>
    cases Option.some.inj hexec
    exact h
  | cons call calls ih =>
    obtain ⟨next, hs, hrest⟩ := Option.bind_eq_some_iff.mp hexec
    have hcount : n + rememberedIn (call :: calls) =
        n + rememberedIn [call] + rememberedIn calls := by
      rw [rememberedIn, rememberedIn, rememberedIn, ← List.singleton_append, List.countP_append]
      omega
    rw [hcount] at hroom ⊢
    have hnext := recent_step h (hspares call List.mem_cons_self) (by omega) hs
    exact ih hnext (fun c hc => hspares c (List.mem_cons_of_mem call hc)) hroom hrest

/-- **A quote is answered until it expires**, under any other calls, while
they remember fewer quotes than there is room for. -/
theorem requireQuote_of_remembered {asked : ℤ} (hfresh : quote.quoteId ∉ s.quotes.keys)
    (hspares : ∀ call ∈ calls, Spares getTime quote call)
    (hroom : rememberedIn calls < MAX_CACHED_QUOTES)
    (hexec : (quoteMachine getTime).exec s (.remember quote now :: calls) = some t)
    (hlive : isExpired getTime asked quote = false) :
    (requireQuote getTime asked t.quotes quote.quoteId).1 = .ok quote := by
  obtain ⟨next, hs, hrest⟩ := Option.bind_eq_some_iff.mp hexec
  cases Option.some.inj hs
  have hkept : t.quotes.Recent (0 + rememberedIn calls) quote.quoteId quote := by
    refine recent_exec ?_ hspares (by omega) hrest
    dsimp only
    exact recent_rememberQuote_self hfresh
  exact requireQuote_eq_ok_iff.mpr ⟨hkept.get?, hlive⟩

end Answers

/-! ## Two quotes -/

/-- A quote that expires at the thirtieth second. -/
def sampleQuote (quoteId : String) : NormalizedQuote where
  quoteId := quoteId
  chainId := 4663
  protocolKey := "uniswap"
  protocolVersion := "2"
  inputTokenAddress := repeatedAddress 'b' rfl
  outputTokenAddress := repeatedAddress 'c' rfl
  amountInRaw := 100
  expectedAmountOutRaw := 90
  minimumAmountOutRaw := 80
  priceImpactBps := none
  protocolFeeRaw := none
  route := []
  spenderAddress := none
  transactionTarget := repeatedAddress 'd' rfl
  transactionSelector := "0x38ed1739"
  sourceBlockNumber := 7
  createdAt := "0"
  expiresAt := "30"
  warnings := []

def secondsOf (text : String) : Option ℤ := if text = "30" then some 30 else none

/-- Here another quote is remembered and the first is asked for in between. -/
theorem requireQuote_sampleQuote : ∃ t,
    (quoteMachine secondsOf).exec ⟨∅, []⟩ [.remember (sampleQuote "first") 0,
        .remember (sampleQuote "second") 10, .require "first" 20] = some t ∧
      (requireQuote secondsOf 29 t.quotes "first").1 = .ok (sampleQuote "first") := by
  have hspares : ∀ call ∈ [QuoteCall.remember (sampleQuote "second") 10, .require "first" 20],
      Spares secondsOf (sampleQuote "first") call := by
    intro call hcall
    rcases List.mem_cons.mp hcall with rfl | hcall
    · refine ⟨fun other hother => ?_, by decide +kernel⟩
      cases Option.some.inj hother
      decide +kernel
    · rw [List.mem_singleton.mp hcall]
      exact ⟨fun other hother => absurd hother (Option.not_mem_none other), by decide +kernel⟩
  have hroom : rememberedIn [QuoteCall.remember (sampleQuote "second") 10, .require "first" 20] <
      MAX_CACHED_QUOTES := by
    unfold MAX_CACHED_QUOTES
    decide +kernel
  have hfresh : (sampleQuote "first").quoteId ∉ (∅ : QuoteCache).keys := List.not_mem_nil
  obtain ⟨t, ht⟩ := exists_exec ⟨∅, []⟩ [.remember (sampleQuote "first") 0,
    .remember (sampleQuote "second") 10, .require "first" 20]
  exact ⟨t, ht, requireQuote_of_remembered hfresh hspares hroom ht (by decide +kernel)⟩

/-- The service it leaves is a reachable one. -/
theorem quotesHeld_sampleQuote : ∃ t,
    (quoteMachine secondsOf).exec ⟨∅, []⟩ [.remember (sampleQuote "first") 0] = some t ∧
      QuotesHeld secondsOf t := by
  obtain ⟨t, ht⟩ := exists_exec ⟨∅, []⟩ [.remember (sampleQuote "first") 0]
  exact ⟨t, ht, quotesHeld_of_reachable (Machine.reachable_of_exec ⟨rfl, rfl⟩ ht)⟩

end Trading

end HoodSentry
