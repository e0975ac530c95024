import HoodSentry.Indexer.Helpers.Pass
import HoodSentry.Indexer.Model.PoolBackfill
/-!
# Protocol events reach the repository

For every block the live loop has moved past and every log of it an
adapter decodes into an event, the event is persisted and its jobs are
published. A failed handling is swallowed and its key stays processed, so
nothing handles the event again in that process; and the tail moves its
checkpoint before it handles anything. `HandledPass` is what a pass must
meet for this to cost no event.
-/

namespace HoodSentry

/-- The repository writes that persist an event, for each kind. -/
def repositoryCalls (event : NormalizedProtocolEvent) : List RepositoryCall :=
  match event with
  | .graduation .. => [.insertGraduation event]
  | _ => persistCalls event

/-- **An event is done**: persisted, and its jobs published. -/
def EventDone (w : World) (event : NormalizedProtocolEvent) : Prop :=
  (∀ call ∈ repositoryCalls event, call ∈ w.repository) ∧
    ∀ job ∈ protocolJobs event, job ∈ w.queue

/-- The event the adapters make of a log, with the key it is processed
under. -/
def Indexer.Decodes (ix : Indexer) (raw : RawChainLog) (key : EventKey)
    (event : NormalizedProtocolEvent) : Prop :=
  decodeAndNormalize ix.adapters raw = some (some (key, event))

/-- **No event of an indexed block is dropped.** -/
def EventsHandled (ix : Indexer) (w : World) : Prop :=
  ∀ b ∈ w.indexed, ∀ number hash, b.block.number = some number → b.block.hash = some hash →
    ∀ log ∈ b.logs, ∀ raw, parseRawChainLog ix.config number hash log = some raw →
      ∀ key event, ix.Decodes raw key event → EventDone w event

/-- A key names one event: chain, block, transaction and log index are a
log's own. -/
def KeyedPass (ix : Indexer) (eventOf : EventKey → NormalizedProtocolEvent)
    (es : List Effect) : Prop :=
  ∀ raw failAt, Effect.handleLog (some raw) failAt ∈ es →
    ∀ key event, ix.Decodes raw key event → event = eventOf key

/-- A run whose keys name events. -/
def KeyedStep (ix : Indexer) (eventOf : EventKey → NormalizedProtocolEvent) (w : World) :
    Label → Prop
  | .pass a _ => ∀ l, w.locals = some l →
    KeyedPass ix eventOf (ix.effects w.db l a (decidePass ix.config w.db l a))
  | _ => True

/-! ## The condition -/

/-- No awaited call throws while one of these effects handles an event. -/
def NoneFails (ix : Indexer) (es : List Effect) : Prop :=
  ∀ raw k, Effect.handleLog (some raw) (some k) ∈ es →
    ∀ key event, ix.Decodes raw key event → (handlerCalls event).length ≤ k

/-- **A pass drops no event.** -/
structure HandledPass (ix : Indexer) (w : World) (l : Locals) (a : Answers) (cut : Cut) :
    Prop where
  /-- Every graduation carries its threshold. -/
  thresholds : ∀ raw failAt,
    Effect.handleLog (some raw) failAt ∈ ix.effects w.db l a (decidePass ix.config w.db l a) →
    ∀ key event, ix.Decodes raw key event → persistCalls event = repositoryCalls event
  /-- No call throws while an event is handled, or the process dies with
  it before the window's checkpoint write. -/
  handled :
    NoneFails ix (cut.performed (ix.effects w.db l a (decidePass ix.config w.db l a))) ∨
    ∃ bs k, decidePass ix.config w.db l a = .window bs ∧ cut = .crashes k ∧
      k < (ix.effects w.db l a (decidePass ix.config w.db l a)).length
  /-- A tail pass over a block with events does not stop between its
  checkpoint write and the last log. -/
  tail : ∀ b f, decidePass ix.config w.db l a = .tail b f →
    (∃ raw failAt key event, Effect.handleLog (some raw) failAt ∈ ix.collectEffects a b ∧
      ix.Decodes raw key event) →
    cut.Reaches 1 → cut.Reaches (1 + b.logs.length)

/-- **The condition on a step.** -/
def HandledStep (ix : Indexer) (eventOf : EventKey → NormalizedProtocolEvent) (w : World)
    (i : Label) : Prop :=
  KeyedStep ix eventOf w i ∧
    ∀ a cut, i = .pass a cut → ∀ l, w.locals = some l → HandledPass ix w l a cut

/-! ## Handling one log -/

variable {ix : Indexer} {w w' : World} {eventOf : EventKey → NormalizedProtocolEvent}
variable {a : Answers} {b : BlockData} {l : Locals} {cut : Cut}
variable {key : EventKey} {event : NormalizedProtocolEvent}

/-- What is done stays done. -/
theorem EventDone.mono (h : EventDone w event) (hr : ∀ c ∈ w.repository, c ∈ w'.repository)
    (hq : ∀ j ∈ w.queue, j ∈ w'.queue) : EventDone w' event :=
  ⟨fun c hc => hr c (h.1 c hc), fun j hj => hq j (h.2 j hj)⟩

theorem EventDone.perform {e : Effect} (h : EventDone w event) (hp : ix.perform w e = some w') :
    EventDone w' event := by
  cases e <;> simp only [Indexer.perform, Option.map_eq_some_iff, Option.some.injEq] at hp
  case persistBlockData | persistBlockWindow =>
    obtain ⟨db, -, rfl⟩ := hp
    exact h
  case handleLog | publish | publishMany =>
    subst hp
    exact h.mono (fun c hc => by simp [hc]) fun j hj => by simp [hj]
  all_goals
    subst hp
    exact h

theorem EventDone.performAll {es : List Effect} (h : EventDone w event) :
    EventDone (ix.performAll w es).1 event :=
  Indexer.performAll_induction (P := fun u => EventDone u event) (fun _ _ _ _ hu hp => hu.perform hp) h

/-- **The invariant of a process**: what its keys name is done. -/
def KeysDone (eventOf : EventKey → NormalizedProtocolEvent) (w : World) : Prop :=
  ∀ key ∈ w.processedEventKeys, EventDone w (eventOf key)

/-- What `handle` answers for a log that decodes into an event. -/
theorem handle_of_decodes {raw : RawChainLog} {failAt : Option ℕ} {keys : List EventKey}
    (h : ix.Decodes raw key event) :
    handle ix.adapters keys (some raw) failAt =
      if key ∈ keys then (keys, [])
      else (key :: keys, callsMade event failAt) := by
  have hroute : routeLog ix.adapters keys raw =
      if key ∈ keys then none else some (some event, key :: keys) := by
    have hd : decodeAndNormalize ix.adapters raw = some (some (key, event)) := h
    simp [routeLog, hd]
  unfold handle
  rw [Option.bind_some, hroute]
  by_cases hk : key ∈ keys
  · simp [hk]
  · simp [hk]

/-- A log that decodes into no event leaves the keys as they are and
calls nothing. -/
theorem handle_of_not_decodes {raw : Option RawChainLog} {failAt : Option ℕ}
    {keys : List EventKey} (h : ∀ r, raw = some r → ∀ key event, ¬ix.Decodes r key event) :
    handle ix.adapters keys raw failAt = (keys, []) := by
  cases raw with
  | none => rfl
  | some r =>
    unfold handle
    rw [Option.bind_some]
    cases hd : decodeAndNormalize ix.adapters r with
    | none => simp [routeLog, hd]
    | some o =>
      cases o with
      | none => simp [routeLog, hd]
      | some p => exact absurd hd (h r rfl p.1 p.2)

/-- The writes and publications among the calls of an event. -/
theorem filterMap_handlerCalls :
    (handlerCalls event).filterMap HandlerCall.repositoryCall = persistCalls event ∧
      (handlerCalls event).filterMap HandlerCall.job = protocolJobs event := by
  simp [handlerCalls, List.filterMap_append, List.filterMap_map, Function.comp_def]

/-- **The step lemma of a log**: handled without a failure, its event is
done and the process's keys name what is done. -/
theorem keysDone_handleLog {raw : Option RawChainLog} {failAt : Option ℕ}
    (hw : KeysDone eventOf w)
    (hkeyed : ∀ r, raw = some r → ∀ key event, ix.Decodes r key event → event = eventOf key)
    (hthreshold : ∀ r, raw = some r → ∀ key event, ix.Decodes r key event →
      persistCalls event = repositoryCalls event)
    (hfail : ∀ r k, raw = some r → failAt = some k → ∀ key event, ix.Decodes r key event →
      (handlerCalls event).length ≤ k)
    (hp : ix.perform w (.handleLog raw failAt) = some w') :
    KeysDone eventOf w' ∧
      ∀ r, raw = some r → ∀ key event, ix.Decodes r key event → EventDone w' event := by
  by_cases hd : ∃ r key event, raw = some r ∧ ix.Decodes r key event
  · obtain ⟨r, key, event, rfl, hd⟩ := hd
    have honly : ∀ key' event', ix.Decodes r key' event' → key' = key ∧ event' = event :=
      fun key' event' hd' => by
        have heq := hd'.symm.trans hd
        simp only [Option.some.injEq, Prod.mk.injEq] at heq
        exact heq
    have hevent := hkeyed r rfl key event hd
    have hcalls : callsMade event failAt = handlerCalls event := by
      cases failAt with
      | none => rfl
      | some k => exact List.take_of_length_le (hfail r k rfl rfl key event hd)
    simp only [Indexer.perform, handle_of_decodes hd, Option.some.injEq] at hp
    by_cases hk : key ∈ w.processedEventKeys
    · -- the key is processed already, so the event is done already
      simp only [if_pos hk, List.filterMap_nil, List.append_nil] at hp
      subst hp
      refine ⟨hw, fun r' hr' key' event' hd' => ?_⟩
      obtain rfl := Option.some.inj hr'
      obtain ⟨-, rfl⟩ := honly key' event' hd'
      exact hevent ▸ hw key hk
    · simp only [if_neg hk, hcalls, filterMap_handlerCalls.1, filterMap_handlerCalls.2] at hp
      have hdone : EventDone w' event := by
        subst hp
        refine ⟨fun c hc => ?_, fun j hj => List.mem_append_right _ hj⟩
        rw [← hthreshold r rfl key event hd] at hc
        exact List.mem_append_right _ hc
      refine ⟨fun key' hkey' => ?_, fun r' hr' key' event' hd' => ?_⟩
      · have hmem : key' ∈ key :: w.processedEventKeys := by
          subst hp
          exact hkey'
        rcases List.mem_cons.mp hmem with rfl | hmem
        · exact hevent ▸ hdone
        · refine (hw key' hmem).mono (fun c hc => ?_) fun j hj => ?_
          · subst hp
            exact List.mem_append_left _ hc
          · subst hp
            exact List.mem_append_left _ hj
      · obtain rfl := Option.some.inj hr'
        obtain ⟨-, rfl⟩ := honly key' event' hd'
        exact hdone
  · have hno : ∀ r, raw = some r → ∀ key event, ¬ix.Decodes r key event :=
      fun r hr key event h => hd ⟨r, key, event, hr, h⟩
    simp only [Indexer.perform, handle_of_not_decodes hno, List.filterMap_nil, List.append_nil,
      Option.some.injEq] at hp
    subst hp
    exact ⟨hw, fun r hr key event h => absurd h (hno r hr key event)⟩

/-! ## Handling a list of effects -/

/-- Effects that handle their logs without losing one. -/
structure CleanEffects (ix : Indexer) (eventOf : EventKey → NormalizedProtocolEvent)
    (es : List Effect) : Prop where
  keyed : KeyedPass ix eventOf es
  thresholds : ∀ raw failAt, Effect.handleLog (some raw) failAt ∈ es →
    ∀ key event, ix.Decodes raw key event → persistCalls event = repositoryCalls event
  noneFails : NoneFails ix es

theorem CleanEffects.subset {es es' : List Effect} (h : CleanEffects ix eventOf es)
    (hsub : ∀ e ∈ es', e ∈ es) : CleanEffects ix eventOf es' where
  keyed raw failAt hmem := h.keyed raw failAt (hsub _ hmem)
  thresholds raw failAt hmem := h.thresholds raw failAt (hsub _ hmem)
  noneFails raw k hmem := h.noneFails raw k (hsub _ hmem)

theorem keysDone_perform {e : Effect} {es : List Effect} (hw : KeysDone eventOf w)
    (hclean : CleanEffects ix eventOf es) (he : e ∈ es) (hp : ix.perform w e = some w') :
    KeysDone eventOf w' ∧ ∀ raw failAt, e = .handleLog (some raw) failAt →
      ∀ key event, ix.Decodes raw key event → EventDone w' event := by
  cases e
  case handleLog raw failAt =>
    obtain ⟨hkeys, hdone⟩ := keysDone_handleLog hw
      (fun r hr => hclean.keyed r failAt (hr ▸ he))
      (fun r hr => hclean.thresholds r failAt (hr ▸ he))
      (fun r k hr hk => hclean.noneFails r k (hk ▸ hr ▸ he)) hp
    exact ⟨hkeys, fun r f heq => hdone r (Effect.handleLog.inj heq).1⟩
  -- no other effect touches the keys
  all_goals
    refine ⟨fun key hkey => (hw key ?_).perform hp, fun _ _ heq => by simp at heq⟩
    simp only [Indexer.perform, Option.map_eq_some_iff, Option.some.injEq] at hp
  case persistBlockData | persistBlockWindow =>
    obtain ⟨db, -, rfl⟩ := hp
    exact hkey
  all_goals
    subst hp
    exact hkey

/-- **The run lemma of a pass**: its clean effects keep the invariant of
the process, and when all are done so is every event among them. -/
theorem keysDone_performAll {es : List Effect} (hw : KeysDone eventOf w)
    (hclean : CleanEffects ix eventOf es) :
    KeysDone eventOf (ix.performAll w es).1 ∧ ((ix.performAll w es).2 = true →
      ∀ raw failAt, Effect.handleLog (some raw) failAt ∈ es →
        ∀ key event, ix.Decodes raw key event → EventDone (ix.performAll w es).1 event) := by
  induction es generalizing w with
  | nil => exact ⟨hw, fun _ _ _ h => absurd h List.not_mem_nil⟩
  | cons e es ih =>
    cases hp : ix.perform w e with
    | none =>
      simp only [Indexer.performAll, hp]
      exact ⟨hw, fun h => absurd h Bool.false_ne_true⟩
    | some w' =>
      obtain ⟨hkeys, hdone⟩ := keysDone_perform hw hclean List.mem_cons_self hp
      obtain ⟨hkeys', hdone'⟩ := ih hkeys (hclean.subset fun e he => List.mem_cons_of_mem _ he)
      simp only [Indexer.performAll, hp]
      refine ⟨hkeys', fun hok raw failAt hmem key event hd => ?_⟩
      rcases List.mem_cons.mp hmem with heq | hmem
      · exact (hdone raw failAt heq.symm key event hd).performAll
      · exact hdone' hok raw failAt hmem key event hd

/-! ## The invariant -/

/-- The events of one block are done. -/
def BlockEventsDone (ix : Indexer) (w : World) (b : BlockData) : Prop :=
  ∀ number hash, b.block.number = some number → b.block.hash = some hash →
    ∀ log ∈ b.logs, ∀ raw, parseRawChainLog ix.config number hash log = some raw →
      ∀ key event, ix.Decodes raw key event → EventDone w event

/-- **The invariant**: the events of the indexed blocks are done, and so
are those the process has keys for. -/
structure EventsWorld (ix : Indexer) (eventOf : EventKey → NormalizedProtocolEvent)
    (w : World) : Prop where
  indexed : ∀ b ∈ w.indexed, BlockEventsDone ix w b
  keys : KeysDone eventOf w

/-- The effect a log of a block is handled by. -/
theorem handleLog_mem_collectEffects {number : ℕ} {hash : Hash} {log : Log} {raw : RawChainLog}
    (hn : b.block.number = some number) (hh : b.block.hash = some hash) (hlog : log ∈ b.logs)
    (hraw : parseRawChainLog ix.config number hash log = some raw) :
    Effect.handleLog (some raw) (a.failAt raw) ∈ ix.collectEffects a b := by
  simp only [Indexer.collectEffects, hn, hh]
  refine List.mem_append_left _ (List.mem_map.mpr ⟨log, hlog, ?_⟩)
  simp [hraw]

/-- In a tail pass it stands no later than the last log. -/
theorem exists_getElem?_handleLog {number : ℕ} {hash : Hash} {log : Log} {raw : RawChainLog}
    {db : Db} {f : FinalityState} (hn : b.block.number = some number)
    (hh : b.block.hash = some hash) (hlog : log ∈ b.logs)
    (hraw : parseRawChainLog ix.config number hash log = some raw) :
    ∃ j ≤ 1 + b.logs.length,
      (ix.effects db l a (.tail b f))[j]? = some (.handleLog (some raw) (a.failAt raw)) := by
  obtain ⟨m, hm⟩ := List.mem_iff_getElem?.mp hlog
  have hlt : m < b.logs.length := (List.getElem?_eq_some_iff.mp hm).1
  refine ⟨m + 2, by omega, ?_⟩
  obtain ⟨heq, -⟩ := Indexer.effects_tail ix db (l := l) (a := a) (b := b)
    (f := f)
  rw [heq]
  simp only [List.getElem?_cons_succ, Indexer.collectEffects, hn, hh, List.append_assoc]
  rw [List.getElem?_append_left (by simpa using hlt), List.getElem?_map, hm]
  simp [hraw]

/-- **The step lemma.** -/
theorem eventsWorld_pass (hw : EventsWorld ix eventOf w)
    (hkeyed : KeyedPass ix eventOf (ix.effects w.db l a (decidePass ix.config w.db l a)))
    (hC : HandledPass ix w l a cut) : EventsWorld ix eventOf (ix.runPass w l a cut) := by
  obtain ⟨-, hrepository, hqueue, hindexed⟩ := Indexer.runPass_fields ix cut (w := w) (l := l)
    (a := a)
  have hdone : ∀ event, EventDone (ix.performAll w (cut.performed (ix.effects w.db l a
      (decidePass ix.config w.db l a)))).1 event → EventDone (ix.runPass w l a cut) event :=
    fun event h => h.mono (fun c hc => hrepository ▸ hc) fun j hj => hqueue ▸ hj
  have hold : ∀ b ∈ w.indexed, BlockEventsDone ix (ix.runPass w l a cut) b :=
    fun b hb number hash hn hh log hlog raw hraw key event hd =>
      hdone event (hw.indexed b hb number hash hn hh log hlog raw hraw key event hd).performAll
  rcases hC.handled with hnone | ⟨bs, k, hwin, rfl, hlt⟩
  · have hclean : CleanEffects ix eventOf (cut.performed (ix.effects w.db l a
        (decidePass ix.config w.db l a))) :=
      ⟨fun raw failAt hmem => hkeyed raw failAt (Cut.mem_of_mem_performed hmem),
        fun raw failAt hmem => hC.thresholds raw failAt (Cut.mem_of_mem_performed hmem), hnone⟩
    obtain ⟨hkeys, hall⟩ := keysDone_performAll hw.keys hclean
    refine ⟨fun b hb => ?_, fun key hkey => ?_⟩
    · by_cases hb' : b ∈ w.indexed
      · exact hold b hb'
      · rw [hindexed] at hb
        obtain ⟨hblock, hok, hreach, hwindow⟩ := Indexer.newly_indexed hb hb'
        intro number hash hn hh log hlog raw hraw key event hd
        refine hdone event (hall hok raw (a.failAt raw) ?_ key event hd)
        have hcollect := handleLog_mem_collectEffects (a := a) hn hh hlog hraw
        cases hdec : decidePass ix.config w.db l a with
        | wait => exact absurd (hdec ▸ hblock) List.not_mem_nil
        | reorg e => exact absurd (hdec ▸ hblock) List.not_mem_nil
        | tail c f =>
          rw [hdec] at hblock
          obtain rfl := List.mem_singleton.mp hblock
          obtain ⟨j, hj, hget⟩ := exists_getElem?_handleLog (a := a) (l := l) (f := f)
            hn hh hlog hraw
          exact Cut.mem_performed (hC.tail b f hdec ⟨raw, _, key, event, hcollect, hd⟩ hreach)
            hget hj
        | window bs =>
          rw [hdec] at hwindow hblock
          rw [hwindow bs rfl]
          simp only [Indexer.effects, List.mem_append, List.mem_flatMap]
          exact Or.inl (Or.inl (Or.inr ⟨b, hblock, hcollect⟩))
    · obtain ⟨-, hmem⟩ := Indexer.mem_processedEventKeys_runPass hkey
      exact hdone _ (hkeys key hmem)
  · -- the process dies short of the checkpoint write, and its keys with it
    refine ⟨fun b hb => hold b ?_, fun key hkey => ?_⟩
    · by_contra hb'
      rw [hindexed] at hb
      obtain ⟨-, -, -, hwindow⟩ := Indexer.newly_indexed hb hb'
      have hlen := congrArg List.length (hwindow bs hwin)
      simp only [Cut.performed, List.length_take] at hlen
      omega
    · exact absurd rfl ((Indexer.mem_processedEventKeys_runPass hkey).1 k)

/-- **No event is dropped** in any state reached by a run whose passes
meet the condition. -/
theorem eventsHandled_of_reaches (h : ix.live.Reaches (HandledStep ix eventOf) w) :
    EventsHandled ix w := by
  have hinv : EventsWorld ix eventOf w := by
    refine h.invariant (fun s hs => ?_) fun s i s' hI hC hstep => ?_
    · obtain rfl : s = World.empty := hs
      exact ⟨fun b hb => absurd hb List.not_mem_nil, fun key hkey => absurd hkey List.not_mem_nil⟩
    cases i with
    | start =>
      simp only [Indexer.live, Indexer.step] at hstep
      split at hstep
      · obtain rfl := Option.some.inj hstep
        exact ⟨hI.indexed, fun key hkey => absurd hkey List.not_mem_nil⟩
      · simp at hstep
    | pass a cut =>
      obtain ⟨l, hl, rfl⟩ := Option.map_eq_some_iff.mp hstep
      exact eventsWorld_pass hI (hC.1 l hl) (hC.2 a cut rfl l hl)
    | transfer t =>
      obtain rfl := Option.some.inj hstep
      exact ⟨hI.indexed, hI.keys⟩
    | reconcile =>
      obtain rfl := Option.some.inj hstep
      exact ⟨hI.indexed, hI.keys⟩
  exact hinv.indexed

/-! ## Runs -/

theorem failAt_of_mem_collectEffects {raw : Option RawChainLog} {failAt : Option ℕ}
    (h : Effect.handleLog raw failAt ∈ ix.collectEffects a b) : failAt = raw.bind a.failAt := by
  unfold Indexer.collectEffects at h
  split at h
  · rcases List.mem_append.mp h with h | h
    · obtain ⟨log, -, heq⟩ := List.mem_map.mp h
      obtain ⟨rfl, rfl⟩ := Effect.handleLog.inj heq
      rfl
    · obtain ⟨job, -, heq⟩ := List.mem_map.mp h
      simp at heq
  · exact absurd h List.not_mem_nil

/-- Where no call is answered with a failure, no event's handling fails. -/
theorem noneFails_of_failAt {db : Db} {d : Decision} (h : ∀ raw, a.failAt raw = none) :
    NoneFails ix (cut.performed (ix.effects db l a d)) := by
  have hcollect : ∀ {b raw k}, Effect.handleLog (some raw) (some k) ∉ ix.collectEffects a b :=
    fun hmem => by
      have := failAt_of_mem_collectEffects hmem
      simp [h] at this
  have hpublish : ∀ {jobs raw k}, Effect.handleLog (some raw) (some k) ∉ ix.publishEffects jobs :=
    fun hmem => by
      unfold Indexer.publishEffects at hmem
      split at hmem
      · simp at hmem
      · split at hmem <;> simp at hmem
  intro raw k hmem
  replace hmem := Cut.mem_of_mem_performed hmem
  cases d with
  | wait => exact absurd hmem List.not_mem_nil
  | reorg e => simp [Indexer.effects] at hmem
  | tail b f => simp [Indexer.effects, hcollect, hpublish] at hmem
  | window bs => simp [Indexer.effects, hcollect, hpublish] at hmem

/-- The swap an event key names, in one pool. -/
def swapOfKey (key : EventKey) : NormalizedProtocolEvent :=
  .swap
    { chainId := key.1
      protocolKey := "uniswap-v2"
      protocolVersion := "2"
      blockNumber := 5
      blockHash := key.2.1
      transactionHash := key.2.2.1
      logIndex := key.2.2.2
      canonical := true }
    ⟨7⟩ ⟨1⟩ ⟨2⟩ 10 20

/-- An adapter to which every log is such a swap. -/
def swapAdapter : ProtocolAdapter where
  chainId := 1
  supportsAddress _ := true
  decodeLog raw :=
    some (some ⟨.swap, raw.chainId, raw.blockHash, raw.transactionHash, raw.logIndex⟩)
  decoders := .dex (fun _ => some none)
    (fun raw => some (some
      (swapOfKey (raw.chainId, raw.blockHash, raw.transactionHash, raw.logIndex))))
    fun _ => some none

def Indexer.withSwaps : Indexer := { Indexer.bare with adapters := [swapAdapter] }

theorem eq_swapOfKey_of_decodes {raw : RawChainLog} (h : Indexer.withSwaps.Decodes raw key event) :
    event = swapOfKey key := by
  unfold Indexer.Decodes decodeAndNormalize at h
  split at h
  · simp at h
  · rename_i adapter hfind
    obtain rfl : adapter = swapAdapter := by
      simpa [Indexer.withSwaps] using List.mem_of_find?_eq_some hfind
    simp only [swapAdapter, normalize, Option.bind_eq_bind, Option.bind_some, Option.pure_def,
      Option.map_some, Option.some.injEq, Prod.mk.injEq] at h
    obtain ⟨rfl, rfl⟩ := h
    rfl

theorem keyedStep_withSwaps (w : World) (i : Label) : KeyedStep Indexer.withSwaps swapOfKey w i := by
  cases i with
  | pass a cut => exact fun _ _ _ _ _ _ _ h => eq_swapOfKey_of_decodes h
  | _ => trivial

/-- The block at 5 with one log. -/
def swapBlock : BlockData :=
  { BlockData.bare 5 5 4 with
    logs := [⟨some ⟨1⟩, some 0, some 0, some 5, ⟨7⟩, [⟨64, 1⟩], ⟨64, 0⟩, false⟩] }

/-- A pass none of whose calls fail persists the swap and publishes its
five jobs. -/
theorem eventsHandled_of_clean_pass :
    ∃ w, Indexer.withSwaps.live.exec World.empty
        [.start, .pass (.ofBlocks 5 [swapBlock]) .completes] = some w ∧
      w.repository.length = 1 ∧ w.queue.length = 5 ∧ EventsHandled Indexer.withSwaps w := by
  let C := HandledStep Indexer.withSwaps swapOfKey
  let w₁ := Indexer.withSwaps.startProcess World.empty
  have h₁ : Indexer.withSwaps.live.Reaches C w₁ :=
    .step (i := .start) (.init rfl) ⟨trivial, fun a cut h => by simp at h⟩ rfl
  refine ⟨_, rfl, rfl, rfl, eventsHandled_of_reaches (h₁.step
    (i := .pass (.ofBlocks 5 [swapBlock]) .completes) ⟨keyedStep_withSwaps _ _, ?_⟩ rfl)⟩
  intro a cut hi l hl
  obtain ⟨rfl, rfl⟩ := Label.pass.inj hi
  obtain rfl := Option.some.inj hl
  refine ⟨fun raw failAt _ key event h => ?_, Or.inl (noneFails_of_failAt fun _ => rfl),
    fun _ _ _ _ _ => trivial⟩
  rw [eq_swapOfKey_of_decodes h]
  rfl

/-- **An event can be dropped**: its write throws once, the handler
swallows the error, and the checkpoint is past the block. -/
theorem not_eventsHandled_of_failure :
    ¬∀ (ix : Indexer) (eventOf : EventKey → NormalizedProtocolEvent) (w : World),
      ix.live.Reaches (KeyedStep ix eventOf) w → EventsHandled ix w := by
  intro h
  let a : Answers := { Answers.ofBlocks 5 [swapBlock] with failAt := fun _ => some 0 }
  have hvalues : (Indexer.withSwaps.live.exec World.empty [.start, .pass a .completes]).map
      (fun w => (w.indexed.head?, w.db.checkpoint, w.repository)) =
      some (some swapBlock, some ⟨6, some ⟨5⟩⟩, []) := by decide
  obtain ⟨w, hw, hvalues⟩ := Option.map_eq_some_iff.mp hvalues
  simp only [Prod.mk.injEq] at hvalues
  obtain ⟨hhead, -, hrepository⟩ := hvalues
  have hreach : Indexer.withSwaps.live.Reaches (KeyedStep Indexer.withSwaps swapOfKey) w :=
    Machine.Reaches.exec (.init rfl)
      (Machine.meets_of_forall (fun i _ s => keyedStep_withSwaps s i) _) hw
  have hdone := h Indexer.withSwaps swapOfKey w hreach swapBlock (List.mem_of_head? hhead) 5 ⟨5⟩
    rfl rfl _ List.mem_cons_self _ rfl (1, ⟨5⟩, ⟨1⟩, 0) (swapOfKey (1, ⟨5⟩, ⟨1⟩, 0)) rfl
  have hmem := hdone.1 _ List.mem_cons_self
  rw [hrepository] at hmem
  exact absurd hmem List.not_mem_nil

/-!
## Contract replay

`runContractReplayMode` reads the stored canonical logs of the target
contracts back, in the order of the chain, and hands each to the handler of a
fresh process. A row gives back the log it was built from, and no two rows are
processed under one key, so a replay whose calls succeed makes the calls of
every event of these logs, each once and in order: what a failed handling had
dropped is derived after all (`eventDone_replay`).
-/

namespace LogRow

/-- The topics that are not null. -/
def topics (r : LogRow) : List Hex := [r.topic0, r.topic1, r.topic2, r.topic3].reduceOption

/-- What the replay hands the handler for a row, parsed. -/
def rawChainLog (r : LogRow) : Option RawChainLog := do
  guard (0 < r.chainId ∧ 1 ≤ r.topics.length ∧ r.topics.length ≤ 4)
  return {
    chainId := r.chainId
    blockNumber := r.blockNumber
    blockHash := r.blockHash
    transactionHash := r.transactionHash
    transactionIndex := r.transactionIndex
    logIndex := r.logIndex
    address := r.address
    topics := r.topics
    data := r.data
    removed := r.removed
    canonical := r.canonical }

end LogRow

/-- The contracts and the heights a replay is of. -/
structure ContractReplay where
  targetContracts : List Address
  startBlock : ℕ
  endBlock : ℕ
deriving DecidableEq

namespace Indexer

variable (ix : Indexer) (c : ContractReplay) (failAt : RawChainLog → Option ℕ)

/-- The logs a replay reads. -/
def replayLogs (db : Db) : List LogRow :=
  (db.logs.rows.filter fun r =>
    r.chainId = ix.config.chainId && c.startBlock ≤ r.blockNumber && r.blockNumber ≤ c.endBlock &&
      c.targetContracts.contains r.address && r.canonical).insertionSort fun left right =>
    left.blockNumber < right.blockNumber ∨
      left.blockNumber = right.blockNumber ∧ left.logIndex ≤ right.logIndex

/-- The awaited calls of a replay, batch by batch. -/
def replayEffects (db : Db) : List Effect :=
  (PoolBackfill.slices ix.config.batchSize (ix.replayLogs c db)).flatMap fun batch =>
    batch.map fun log => .handleLog log.rawChainLog (log.rawChainLog.bind failAt)

/-- **`runContractReplayMode`**, neither stopped nor paused. -/
def runContractReplayMode (w : World) : World := (ix.performAll w (ix.replayEffects c failAt w.db)).1

/-- The event the adapters make of a log, if they make one. -/
def decoded (raw : RawChainLog) : Option (EventKey × NormalizedProtocolEvent) :=
  (decodeAndNormalize ix.adapters raw).join

/-- The events of the logs a replay reads. -/
def replayedEvents (db : Db) : List NormalizedProtocolEvent :=
  ((ix.replayLogs c db).filterMap fun log => log.rawChainLog.bind ix.decoded).map (·.2)

/-- An event is keyed by where its log stands. -/
def KeyedByLog : Prop := ∀ raw key event, ix.Decodes raw key event →
  key = (raw.chainId, raw.blockHash, raw.transactionHash, raw.logIndex)

end Indexer

section Storage

variable {cfg : IndexerConfig} {log : Log} {number : ℕ} {hash : Hash} {canonical : Bool}
  {row : LogRow}

/-- At most four elements by their positions. -/
theorem reduceOption_getElem? (topics : List Hex) (h : topics.length ≤ 4) :
    [topics[0]?, topics[1]?, topics[2]?, topics[3]?].reduceOption = topics := by
  match topics, h with
  | [], _ | [_], _ | [_, _], _ | [_, _, _], _ | [_, _, _, _], _ => rfl
  | _ :: _ :: _ :: _ :: _ :: _, h =>
    simp only [List.length_cons] at h
    omega

theorem canonical_of_parseRawChainLog {raw : RawChainLog}
    (h : parseRawChainLog cfg number hash log = some raw) : raw.canonical = !log.removed := by
  simp only [parseRawChainLog, Option.bind_eq_bind, Option.bind_eq_some_iff, Option.pure_def,
    Option.some.injEq] at h
  obtain ⟨_, -, _, -, _, -, _, -, rfl⟩ := h
  rfl

theorem address_of_buildLogRow (h : buildLogRow cfg log number hash canonical = some row) :
    row.address = log.address := by
  simp only [buildLogRow, Option.bind_eq_bind, Option.bind_eq_some_iff, Option.pure_def,
    Option.some.injEq] at h
  obtain ⟨_, -, _, -, _, -, rfl⟩ := h
  rfl

/-- **A row gives its log back**, with the row's own flag. -/
theorem rawChainLog_buildLogRow (h : buildLogRow cfg log number hash canonical = some row)
    (htopics : log.topics.length ≤ 4) :
    row.rawChainLog = (parseRawChainLog cfg number hash log).map
      fun raw => { raw with canonical := canonical } := by
  simp only [buildLogRow, Option.bind_eq_bind, Option.bind_eq_some_iff, Option.pure_def,
    Option.some.injEq] at h
  obtain ⟨transactionHash, hhash, transactionIndex, htx, logIndex, hindex, rfl⟩ := h
  have hback := reduceOption_getElem? log.topics htopics
  simp only [LogRow.rawChainLog, LogRow.topics, hback, parseRawChainLog, hhash, htx, hindex,
    Option.bind_eq_bind, Option.bind_some]
  by_cases hguard : 0 < cfg.chainId ∧ 1 ≤ log.topics.length ∧ log.topics.length ≤ 4
  · simp [guard, hguard]
  · simp [guard, hguard]

end Storage

section Replay

variable {c : ContractReplay} {db : Db} {failAt : RawChainLog → Option ℕ}

/-- Pieces of a list make it up again. -/
theorem flatten_slices {α : Type} {size : ℕ} (hsize : 0 < size) (l : List α) :
    (PoolBackfill.slices size l).flatten = l := by
  have hcount : ∀ count, ((List.range count).map fun k => (l.drop (k * size)).take size).flatten =
      l.take (count * size) := by
    intro count
    induction count with
    | zero => simp
    | succ count ih =>
      rw [List.range_succ, List.map_append, List.flatten_append, ih, List.map_singleton,
        List.flatten_singleton, Nat.succ_mul, List.take_add]
  rw [PoolBackfill.slices, hcount, List.take_of_length_le]
  have hmod := Nat.div_add_mod (l.length + size - 1) size
  have hlt := Nat.mod_lt (l.length + size - 1) hsize
  rw [Nat.mul_comm]
  omega

theorem decoded_eq_some_iff {raw : RawChainLog} :
    ix.decoded raw = some (key, event) ↔ ix.Decodes raw key event := by
  rw [Indexer.decoded, Indexer.Decodes]
  cases decodeAndNormalize ix.adapters raw <;> simp

/-- The calls of a replay are those of its logs, whatever the batches. -/
theorem replayEffects_eq (hsize : 0 < ix.config.batchSize) (hfail : ∀ raw, failAt raw = none) :
    ix.replayEffects c failAt db =
      (ix.replayLogs c db).map fun log => Effect.handleLog log.rawChainLog none := by
  have hnone : ∀ raw : Option RawChainLog, raw.bind failAt = none := by
    intro raw
    cases raw with
    | none => rfl
    | some raw => exact hfail raw
  simp only [Indexer.replayEffects, hnone]
  rw [List.flatMap_def, ← List.map_flatten, flatten_slices hsize]

/-- What the replay hands the handler stands where its row stands. -/
theorem fields_of_rawChainLog {r : LogRow} {raw : RawChainLog} (h : r.rawChainLog = some raw) :
    (raw.chainId, raw.blockHash, raw.transactionHash, raw.logIndex) =
      (r.chainId, r.blockHash, r.transactionHash, r.logIndex) := by
  simp only [LogRow.rawChainLog, Option.bind_eq_bind, Option.bind_eq_some_iff, Option.pure_def,
    Option.some.injEq] at h
  obtain ⟨-, -, rfl⟩ := h
  rfl

/-- **No two logs of a replay are processed under one key.** -/
theorem pairwise_replayLogs (hkeyed : ix.KeyedByLog) :
    (ix.replayLogs c db).Pairwise fun r r' =>
      ∀ e ∈ r.rawChainLog.bind ix.decoded, ∀ e' ∈ r'.rawChainLog.bind ix.decoded, e.1 ≠ e'.1 := by
  have hkeys : ((ix.replayLogs c db).map LogRow.key).Nodup := by
    rw [Indexer.replayLogs, ((List.perm_insertionSort _ _).map LogRow.key).nodup_iff]
    exact db.logs.unique.sublist (List.filter_sublist.map _)
  refine (List.pairwise_map.mp hkeys).imp fun hne e he e' he' heq => hne ?_
  obtain ⟨raw, hraw, hd⟩ := Option.bind_eq_some_iff.mp he
  obtain ⟨raw', hraw', hd'⟩ := Option.bind_eq_some_iff.mp he'
  have hkey := hkeyed raw e.1 e.2 (decoded_eq_some_iff.mp hd)
  have hkey' := hkeyed raw' e'.1 e'.2 (decoded_eq_some_iff.mp hd')
  rw [fields_of_rawChainLog hraw] at hkey
  rw [fields_of_rawChainLog hraw'] at hkey'
  have hsame := hkey.symm.trans (heq.trans hkey')
  simp only [Prod.mk.injEq] at hsame
  simp only [LogRow.key, Prod.mk.injEq]
  exact ⟨hsame.1, hsame.2.2.1, hsame.2.2.2, hsame.2.1⟩

/-- **One log**: its event, under a key not processed before, is persisted and
its jobs are published. -/
theorem perform_handleLog {raw : Option RawChainLog}
    (hfree : ∀ e ∈ raw.bind ix.decoded, e.1 ∉ w.processedEventKeys) :
    ∃ w', ix.perform w (.handleLog raw none) = some w' ∧ w'.db = w.db ∧
      w'.repository = w.repository ++ (raw.bind ix.decoded).toList.flatMap (persistCalls ·.2) ∧
      w'.queue = w.queue ++ (raw.bind ix.decoded).toList.flatMap (protocolJobs ·.2) ∧
      ∀ key ∈ w'.processedEventKeys,
        key ∈ w.processedEventKeys ∨ ∃ e ∈ raw.bind ix.decoded, e.1 = key := by
  cases hd : raw.bind ix.decoded with
  | none =>
    have hno : ∀ r, raw = some r → ∀ key event, ¬ix.Decodes r key event := by
      rintro r rfl key event h
      rw [Option.bind_some, decoded_eq_some_iff.mpr h] at hd
      cases hd
    have hp : ix.perform w (.handleLog raw none) = some w := by
      simp only [Indexer.perform, handle_of_not_decodes hno, List.filterMap_nil, List.append_nil]
    exact ⟨w, hp, rfl, (List.append_nil _).symm, (List.append_nil _).symm, fun _ => Or.inl⟩
  | some e =>
    obtain ⟨r, rfl, hr⟩ := Option.bind_eq_some_iff.mp hd
    obtain ⟨key, event⟩ := e
    have hdecodes := decoded_eq_some_iff.mp hr
    have hhandle : handle ix.adapters w.processedEventKeys (some r) none = _ :=
      handle_of_decodes hdecodes
    rw [if_neg (hfree (key, event) hd)] at hhandle
    have hp : ix.perform w (.handleLog (some r) none) = some
        { w with
          processedEventKeys := key :: w.processedEventKeys
          repository := w.repository ++ persistCalls event
          queue := w.queue ++ protocolJobs event } := by
      simp only [Indexer.perform, hhandle, callsMade, filterMap_handlerCalls.1,
        filterMap_handlerCalls.2]
    refine ⟨_, hp, rfl, by simp, by simp, fun key' hkey => ?_⟩
    rcases List.mem_cons.mp hkey with rfl | hkey
    · exact Or.inr ⟨_, rfl, rfl⟩
    · exact Or.inl hkey

/-- **The logs of a replay**, by induction on what is left of them. -/
theorem performAll_replayed {rows : List LogRow}
    (hfree : ∀ r ∈ rows, ∀ e ∈ r.rawChainLog.bind ix.decoded, e.1 ∉ w.processedEventKeys)
    (hkeys : rows.Pairwise fun r r' => ∀ e ∈ r.rawChainLog.bind ix.decoded,
      ∀ e' ∈ r'.rawChainLog.bind ix.decoded, e.1 ≠ e'.1) :
    let events := (rows.filterMap fun log => log.rawChainLog.bind ix.decoded).map (·.2)
    let w' := (ix.performAll w (rows.map fun log => .handleLog log.rawChainLog none)).1
    w'.db = w.db ∧ w'.repository = w.repository ++ events.flatMap persistCalls ∧
      w'.queue = w.queue ++ events.flatMap protocolJobs := by
  induction rows generalizing w with
  | nil => simp [Indexer.performAll]
  | cons row rows ih =>
    obtain ⟨hrow, hrows⟩ := List.pairwise_cons.mp hkeys
    obtain ⟨w', hp, hdb, hrepository, hqueue, hprocessed⟩ :=
      perform_handleLog (hfree row List.mem_cons_self)
    have hfree' : ∀ r ∈ rows, ∀ e ∈ r.rawChainLog.bind ix.decoded,
        e.1 ∉ w'.processedEventKeys := by
      intro r hr e he hmem
      rcases hprocessed e.1 hmem with hold | ⟨e', he', heq⟩
      · exact hfree r (List.mem_cons_of_mem _ hr) e he hold
      · exact hrow r hr e' he' e he heq
    obtain ⟨hdb', hrepository', hqueue'⟩ := ih hfree' hrows
    simp only [List.map_cons, Indexer.performAll, hp] at hdb' hrepository' hqueue' ⊢
    refine ⟨hdb'.trans hdb, ?_, ?_⟩
    · rw [hrepository', hrepository]
      cases hd : row.rawChainLog.bind ix.decoded <;> simp [hd]
    · rw [hqueue', hqueue]
      cases hd : row.rawChainLog.bind ix.decoded <;> simp [hd]

theorem free_of_fresh (hfresh : w.processedEventKeys = []) : ∀ r ∈ ix.replayLogs c w.db,
    ∀ e ∈ r.rawChainLog.bind ix.decoded, e.1 ∉ w.processedEventKeys := by
  intro r _ e _ hmem
  rw [hfresh] at hmem
  exact absurd hmem List.not_mem_nil

/-- **A replay derives what is stored**: a fresh process makes the calls of
the events of the logs it reads, each once and in order, and no others. -/
theorem replay_exact (hkeyed : ix.KeyedByLog) (hsize : 0 < ix.config.batchSize)
    (hfail : ∀ raw, failAt raw = none) (hfresh : w.processedEventKeys = []) :
    let w' := ix.runContractReplayMode c failAt w
    w'.db = w.db ∧
      w'.repository = w.repository ++ (ix.replayedEvents c w.db).flatMap persistCalls ∧
      w'.queue = w.queue ++ (ix.replayedEvents c w.db).flatMap protocolJobs := by
  rw [Indexer.runContractReplayMode, replayEffects_eq hsize hfail]
  exact performAll_replayed (free_of_fresh hfresh) (pairwise_replayLogs hkeyed)

/-- **A dropped event is derived after all**: once its log is stored, a replay
over the log's contract and height leaves the event done, whatever became of
it when the log was first handled. -/
theorem eventDone_replay {log : Log} {number : ℕ} {hash : Hash} {row : LogRow} {raw : RawChainLog}
    (hkeyed : ix.KeyedByLog) (hsize : 0 < ix.config.batchSize) (hfail : ∀ raw, failAt raw = none)
    (hfresh : w.processedEventKeys = [])
    (hrow : buildLogRow ix.config log number hash true = some row) (hstored : row ∈ w.db.logs)
    (htarget : log.address ∈ c.targetContracts)
    (hheight : c.startBlock ≤ number ∧ number ≤ c.endBlock)
    (htopics : log.topics.length ≤ 4) (hremoved : log.removed = false)
    (hraw : parseRawChainLog ix.config number hash log = some raw) (hd : ix.Decodes raw key event)
    (hcalls : persistCalls event = repositoryCalls event) :
    EventDone (ix.runContractReplayMode c failAt w) event := by
  obtain ⟨-, hrepository, hqueue⟩ :=
    performAll_replayed (free_of_fresh (c := c) hfresh) (pairwise_replayLogs hkeyed)
  rw [← replayEffects_eq hsize hfail] at hrepository hqueue
  have hback : row.rawChainLog = some raw := by
    have hlive : ({ raw with canonical := true } : RawChainLog) = raw := by
      have hcanonical := canonical_of_parseRawChainLog hraw
      rw [hremoved] at hcanonical
      cases raw
      simp_all
    rw [rawChainLog_buildLogRow hrow htopics, hraw, Option.map_some, hlive]
  have hread : row ∈ ix.replayLogs c w.db := by
    obtain ⟨hchain, -, -, hnumber, -, hcanonical⟩ := fields_of_buildLogRow hrow
    have haddress := address_of_buildLogRow hrow
    refine (List.mem_insertionSort _).mpr (List.mem_filter.mpr ⟨hstored, ?_⟩)
    simp [hchain, hnumber, hcanonical, haddress, htarget, hheight]
  have hevent : event ∈ ix.replayedEvents c w.db := by
    refine List.mem_map.mpr ⟨(key, event), List.mem_filterMap.mpr ⟨row, hread, ?_⟩, rfl⟩
    rw [hback]
    exact decoded_eq_some_iff.mpr hd
  refine ⟨fun call hcall => ?_, fun job hjob => ?_⟩
  · rw [Indexer.runContractReplayMode, hrepository, List.mem_append, List.mem_flatMap]
    exact Or.inr ⟨event, hevent, hcalls ▸ hcall⟩
  · rw [Indexer.runContractReplayMode, hqueue, List.mem_append, List.mem_flatMap]
    exact Or.inr ⟨event, hevent, hjob⟩

end Replay

theorem keyedByLog_withSwaps : Indexer.withSwaps.KeyedByLog := by
  intro raw key event h
  unfold Indexer.Decodes decodeAndNormalize at h
  split at h
  · simp at h
  · rename_i adapter hfind
    obtain rfl : adapter = swapAdapter := by
      simpa [Indexer.withSwaps] using List.mem_of_find?_eq_some hfind
    simp only [swapAdapter, normalize, Option.bind_eq_bind, Option.bind_some, Option.pure_def,
      Option.map_some, Option.some.injEq, Prod.mk.injEq] at h
    exact h.1.symm

/-- The log of the block at 5. -/
def swapLog : Log := ⟨some ⟨1⟩, some 0, some 0, some 5, ⟨7⟩, [⟨64, 1⟩], ⟨64, 0⟩, false⟩

/-- The swap's write throws, the process dies in its next pass, and another
starts. -/
def droppedSwap : List Label :=
  [.start, .pass { Answers.ofBlocks 5 [swapBlock] with failAt := fun _ => some 0 } .completes,
    .pass (.ofBlocks 5 []) (.crashes 0), .start]

theorem exec_droppedSwap : ∃ w, Indexer.withSwaps.live.exec World.empty droppedSwap = some w ∧
    w.repository = [] ∧ w.processedEventKeys = [] ∧
    w.db.logs.rows = [⟨1, ⟨1⟩, 0, 0, ⟨5⟩, 5, ⟨7⟩, some ⟨64, 1⟩, none, none, none, ⟨64, 0⟩, false,
      true⟩] := by
  refine ⟨_, rfl, ?_⟩
  decide

/-- The replay makes the calls of the swap, and no others. -/
theorem replay_exact_swap : ∃ w, Indexer.withSwaps.live.exec World.empty droppedSwap = some w ∧
    (Indexer.withSwaps.runContractReplayMode ⟨[⟨7⟩], 5, 5⟩ (fun _ => none) w).repository =
      w.repository ++
        (Indexer.withSwaps.replayedEvents ⟨[⟨7⟩], 5, 5⟩ w.db).flatMap persistCalls := by
  obtain ⟨w, hw, -, hkeys, -⟩ := exec_droppedSwap
  exact ⟨w, hw, (replay_exact keyedByLog_withSwaps (by decide) (fun _ => rfl) hkeys).2.1⟩

/-- It leaves the dropped swap done. -/
theorem eventDone_replay_swap : ∃ w, Indexer.withSwaps.live.exec World.empty droppedSwap = some w ∧
    w.repository = [] ∧
    EventDone (Indexer.withSwaps.runContractReplayMode ⟨[⟨7⟩], 5, 5⟩ (fun _ => none) w)
      (swapOfKey (1, ⟨5⟩, ⟨1⟩, 0)) := by
  obtain ⟨w, hw, hrepository, hkeys, hlogs⟩ := exec_droppedSwap
  refine ⟨w, hw, hrepository, ?_⟩
  have hstored : (⟨1, ⟨1⟩, 0, 0, ⟨5⟩, 5, ⟨7⟩, some ⟨64, 1⟩, none, none, none, ⟨64, 0⟩, false,
      true⟩ : LogRow) ∈ w.db.logs := by
    rw [Table.mem_iff, hlogs]
    exact List.mem_singleton_self _
  have hrow : buildLogRow Indexer.withSwaps.config swapLog 5 ⟨5⟩ true = some
      ⟨1, ⟨1⟩, 0, 0, ⟨5⟩, 5, ⟨7⟩, some ⟨64, 1⟩, none, none, none, ⟨64, 0⟩, false, true⟩ := rfl
  have hraw : parseRawChainLog Indexer.withSwaps.config 5 ⟨5⟩ swapLog = some
      ⟨1, 5, ⟨5⟩, ⟨1⟩, 0, 0, ⟨7⟩, [⟨64, 1⟩], ⟨64, 0⟩, false, true⟩ := rfl
  have hd : Indexer.withSwaps.Decodes
      ⟨1, 5, ⟨5⟩, ⟨1⟩, 0, 0, ⟨7⟩, [⟨64, 1⟩], ⟨64, 0⟩, false, true⟩ (1, ⟨5⟩, ⟨1⟩, 0)
      (swapOfKey (1, ⟨5⟩, ⟨1⟩, 0)) := rfl
  exact eventDone_replay keyedByLog_withSwaps (by decide) (fun _ => rfl) hkeys hrow hstored
    (by decide) ⟨by decide, by decide⟩ (by decide) rfl hraw hd rfl

end HoodSentry
