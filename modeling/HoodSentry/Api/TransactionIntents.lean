import HoodSentry.Api.Model.TradingService
/-!
# The life of a transaction intent

Each stored change of an intent is to be a move of its life cycle with one
event of its own. The two database transactions log their event whether
or not their `UPDATE` found the intent where it was read, and a reverted
receipt is stored from anywhere and logged nowhere; while neither happens
the life cycle is followed in every run.
-/

namespace HoodSentry

/-! ## The life cycle -/

/-- **The moves**: simulated, broadcast, then confirmed or failed. -/
inductive TxStatus.Moves : TxStatus → TxStatus → Prop
  | broadcast : Moves .simulated .broadcast
  | confirmed : Moves .broadcast .confirmed
  | failed : Moves .broadcast .failed

/-- The status an event says was reached. -/
def IntentAction.reached : IntentAction → TxStatus
  | created => .simulated
  | broadcast _ => .broadcast
  | confirmed _ _ _ => .confirmed

/-- What has been reached on the way to a status. -/
def TxStatus.history : TxStatus → List TxStatus
  | simulated => [.simulated]
  | broadcast => [.simulated, .broadcast]
  | confirmed => [.simulated, .broadcast, .confirmed]
  | failed => [.simulated, .broadcast, .failed]
  | draft | signed => []

/-- A move adds what it reaches. -/
theorem TxStatus.Moves.history_eq {s s' : TxStatus} (h : s.Moves s') :
    s'.history = s.history ++ [s'] := by
  cases h <;> rfl

/-- Nothing moves back to simulated. -/
theorem TxStatus.Moves.ne_simulated {s s' : TxStatus} (h : s.Moves s') : s' ≠ .simulated := by
  cases h <;> simp

namespace IntentTables

variable {t t' t'' : IntentTables} {intent h : Hash}

/-- What the events of an intent say was reached, in their order. -/
def logged (t : IntentTables) (intent : Hash) : List TxStatus :=
  (t.events.filter fun e => e.intent = intent).map (·.action.reached)

/-- An intent is stored with a transaction hash. -/
def Binds (t : IntentTables) (intent h : Hash) : Prop :=
  ∃ r ∈ t.intents, r.intentHash = intent ∧ r.txHash = some h

/-- An intent stays where it was, and nothing is logged for it. -/
structure Stays (t t' : IntentTables) (r r' : TransactionIntent) : Prop where
  status : r'.status = r.status
  txHash : r'.txHash = r.txHash
  logged : t'.logged r.intentHash = t.logged r.intentHash

/-- An intent makes one move, the one event of it is logged, and a hash it
binds is kept. -/
structure MovesOn (t t' : IntentTables) (r r' : TransactionIntent) : Prop where
  moves : r.status.Moves r'.status
  bound : r'.txHash.isSome
  txHash : ∀ h, r.txHash = some h → r'.txHash = some h
  logged : t'.logged r.intentHash = t.logged r.intentHash ++ [r'.status]

/-- **What a step may do to the intents.** A new intent is simulated,
without a hash. -/
structure Advances (t t' : IntentTables) : Prop where
  kept : ∀ r ∈ t.intents, ∃ r' ∈ t'.intents, r'.intentHash = r.intentHash ∧
    (Stays t t' r r' ∨ MovesOn t t' r r')
  opened : ∀ r' ∈ t'.intents, r'.intentHash ∉ t.intents.keys →
    r'.status = .simulated ∧ r'.txHash = none ∧
      t'.logged r'.intentHash = t.logged r'.intentHash ++ [.simulated]

/-- **The intents are where their events say**, and bind a hash once they
are broadcast. -/
structure Recorded (t : IntentTables) : Prop where
  events : ∀ r ∈ t.intents, t.logged r.intentHash = r.status.history
  bound : ∀ r ∈ t.intents, r.txHash.isSome ↔ r.status ≠ .simulated
  known : ∀ e ∈ t.events, e.intent ∈ t.intents.keys

theorem Advances.refl (t : IntentTables) : Advances t t where
  kept r hr := ⟨r, hr, rfl, Or.inl ⟨rfl, rfl, rfl⟩⟩
  opened _ hr hnew := absurd (Table.key_mem_keys hr) hnew

/-- Intents stay. -/
theorem Advances.mem_keys (ha : Advances t t') (hk : intent ∈ t.intents.keys) :
    intent ∈ t'.intents.keys := by
  obtain ⟨r, hr, rfl⟩ := Table.mem_keys.mp hk
  obtain ⟨r', hr', hk', -⟩ := ha.kept r hr
  exact hk' ▸ Table.key_mem_keys hr'

/-- A bound hash stays. -/
theorem Advances.binds (ha : Advances t t') (hb : t.Binds intent h) : t'.Binds intent h := by
  obtain ⟨r, hr, rfl, hhash⟩ := hb
  obtain ⟨r', hr', hk, hstays | hmoves⟩ := ha.kept r hr
  · exact ⟨r', hr', hk, hstays.txHash.trans hhash⟩
  · exact ⟨r', hr', hk, hmoves.txHash h hhash⟩

/-- **Advances keep the record**, as long as no event is of an unknown
intent. -/
theorem Recorded.advances (hrec : Recorded t) (ha : Advances t t')
    (hknown : ∀ e ∈ t'.events, e.intent ∈ t'.intents.keys) : Recorded t' := by
  -- a row stood before, and then is the one its predecessor became, or it is new
  have hrow : ∀ r' ∈ t'.intents, t'.logged r'.intentHash = r'.status.history ∧
      (r'.txHash.isSome ↔ r'.status ≠ .simulated) := by
    intro r' hr'
    by_cases hold : r'.intentHash ∈ t.intents.keys
    · obtain ⟨r, hr, hk⟩ := Table.mem_keys.mp hold
      obtain ⟨r'', hr'', hk', hchange⟩ := ha.kept r hr
      obtain rfl := Table.eq_of_key_eq hr'' hr' (hk'.trans hk)
      rw [← hk]
      rcases hchange with hstays | hmoves
      · rw [hstays.logged, hstays.status, hstays.txHash]
        exact ⟨hrec.events r hr, hrec.bound r hr⟩
      · rw [hmoves.logged, hrec.events r hr, hmoves.moves.history_eq]
        exact ⟨rfl, by simp [hmoves.bound, hmoves.moves.ne_simulated]⟩
    · obtain ⟨hstatus, hhash, hlogged⟩ := ha.opened r' hr' hold
      have hnone : t.logged r'.intentHash = [] := by
        rw [logged, List.map_eq_nil_iff, List.filter_eq_nil_iff]
        intro e he
        have hne : e.intent ≠ r'.intentHash := fun heq => hold (heq ▸ hrec.known e he)
        simpa using hne
      rw [hlogged, hnone, hstatus, hhash]
      exact ⟨rfl, by simp⟩
  exact ⟨fun r' hr' => (hrow r' hr').1, fun r' hr' => (hrow r' hr').2, hknown⟩

/-- The status an intent stands at is that of its row. -/
theorem status_eq {s : TxStatus} (hs : t.status intent = some s) :
    ∃ r ∈ t.intents, r.intentHash = intent ∧ r.status = s := by
  obtain ⟨r, hr, rfl⟩ := Option.map_eq_some_iff.mp hs
  exact ⟨r, List.mem_of_find?_eq_some hr, by simpa using List.find?_some hr, rfl⟩

/-- An intent that stands somewhere is stored. -/
theorem mem_keys_of_status {s : TxStatus} (hs : t.status intent = some s) :
    intent ∈ t.intents.keys := by
  obtain ⟨r, hr, rfl, -⟩ := status_eq hs
  exact Table.key_mem_keys hr

/-- Logging one more event of a stored intent. -/
theorem Recorded.logs {e : IntentEvent} (hrec : Recorded t) (ha : Advances t t')
    (he : e.intent ∈ t'.intents.keys) (hevents : t'.events = t.events ++ [e]) : Recorded t' := by
  refine hrec.advances ha fun e' he' => ?_
  rw [hevents, List.mem_append, List.mem_singleton] at he'
  rcases he' with hold | rfl
  · exact ha.mem_keys (hrec.known e' hold)
  · exact he

/-! ## What the statements do -/

/-- One more event is logged for its own intent. -/
theorem logged_append {i i' : Table TransactionIntent.intentHash} {events : List IntentEvent}
    {e : IntentEvent} : logged ⟨i', events ++ [e]⟩ intent =
      logged ⟨i, events⟩ intent ++ if e.intent = intent then [e.action.reached] else [] := by
  simp only [logged, List.filter_append, List.map_append, List.append_cancel_left_eq]
  by_cases he : e.intent = intent <;> simp [he]

/-- **A guarded `UPDATE` that finds its intent**, with its event. -/
theorem advances_update {s s' : TxStatus} {f : TransactionIntent → TransactionIntent}
    {hf : ∀ r, (f r).intentHash = r.intentHash} {action : IntentAction}
    (hs : t.status intent = some s) (hmoves : s.Moves s') (hstatus : ∀ r, (f r).status = s')
    (hbound : ∀ r ∈ t.intents, r.status = s →
      (f r).txHash.isSome ∧ ∀ h, r.txHash = some h → (f r).txHash = some h)
    (hreached : action.reached = s') :
    Advances t ⟨t.intents.updateWhere (fun r => r.intentHash = intent && r.status = s) f hf,
      t.events ++ [⟨intent, action⟩]⟩ where
  kept r hr := by
    by_cases hk : r.intentHash = intent
    · obtain ⟨row, hrow, hrowk, hrows⟩ := status_eq hs
      obtain rfl := Table.eq_of_key_eq hrow hr (hrowk.trans hk.symm)
      refine ⟨f row, Table.mem_updateWhere_of hr (by simp [hk, hrows]) hf, hf row, Or.inr ?_⟩
      obtain ⟨hsome, hkept⟩ := hbound row hr hrows
      refine ⟨?_, hsome, hkept, ?_⟩
      · rw [hrows, hstatus]
        exact hmoves
      · rw [logged_append (i := t.intents), if_pos hk.symm, hstatus, hreached]
    · refine ⟨r, Table.mem_updateWhere_of_not hr (by simp [hk]) hf, rfl, Or.inl ⟨rfl, rfl, ?_⟩⟩
      rw [logged_append (i := t.intents), if_neg (Ne.symm hk), List.append_nil]
  opened r' hr' hnew := by
    have hold := Table.key_mem_keys hr'
    rw [Table.keys_updateWhere] at hold
    exact absurd hold hnew

/-- A broadcast of a simulated intent. -/
theorem advances_storeBroadcast (hrec : Recorded t) (hs : t.status intent = some .simulated) :
    Advances t (t.storeBroadcast intent h) := by
  refine advances_update hs .broadcast (fun _ => rfl) (fun r hr hsim => ⟨rfl, fun h' hh' => ?_⟩) rfl
  -- a simulated intent has no hash to lose
  have hbound := (hrec.bound r hr).mp (by rw [hh']; rfl)
  exact absurd hsim hbound

/-- A confirmation of a broadcast intent. -/
theorem advances_storeConfirmation {blockNumber : ℕ} {blockHash : Hash} (hrec : Recorded t)
    (hs : t.status intent = some .broadcast) :
    Advances t (t.storeConfirmation intent h blockNumber blockHash) := by
  refine advances_update hs .confirmed (fun _ => rfl) (fun r hr hstatus => ⟨?_, fun _ hh => hh⟩) rfl
  exact (hrec.bound r hr).mpr (by rw [hstatus]; simp)

/-- A stored broadcast binds its hash. -/
theorem binds_storeBroadcast (hs : t.status intent = some .simulated) :
    (t.storeBroadcast intent h).Binds intent h := by
  obtain ⟨row, hrow, hk, hsim⟩ := status_eq hs
  exact ⟨{ row with status := .broadcast, txHash := some h },
    Table.mem_updateWhere_of hrow (by simp [hk, hsim]), hk, rfl⟩

/-- A new intent. -/
theorem advances_persistIntent {draft : TransactionIntent}
    (hp : t.persistIntent draft = some t') : Advances t t' := by
  rw [persistIntent] at hp
  split at hp
  · exact absurd hp (by simp)
  · rename_i hfree
    obtain rfl := Option.some.inj hp
    constructor
    · intro r hr
      have hne : draft.intentHash ≠ r.intentHash := fun heq => hfree (heq ▸ Table.key_mem_keys hr)
      refine ⟨r, Table.mem_insertNew_of_mem hr, rfl, Or.inl ⟨rfl, rfl, ?_⟩⟩
      rw [logged_append (i := t.intents), if_neg hne, List.append_nil]
    · intro r' hr' hnew
      rcases Table.mem_insertNew.mp hr' with hold | ⟨rfl, -⟩
      · exact absurd (Table.key_mem_keys hold) hnew
      · refine ⟨rfl, rfl, ?_⟩
        rw [logged_append (i := t.intents), if_pos rfl]
        rfl

/-- It is on record from the start. -/
theorem recorded_persistIntent {draft : TransactionIntent} (hrec : Recorded t)
    (hp : t.persistIntent draft = some t') : Recorded t' := by
  have ha := advances_persistIntent hp
  rw [persistIntent] at hp
  split at hp
  · exact absurd hp (by simp)
  · obtain rfl := Option.some.inj hp
    exact hrec.logs ha (Table.mem_keys_insertNew.mpr (Or.inr rfl)) rfl

end IntentTables

namespace TradingService

open IntentTables

variable {service : TradingService} {w w' : Workers IntentTables IntentPhase IntentReturn}
variable {l : WorkerLabel IntentCall IntentRequest IntentCreation}

/-! ## Following the life cycle -/

/-- Every answered call names the hash its intent is stored with. -/
def AnswersStored (w : Workers IntentTables IntentPhase IntentReturn) : Prop :=
  ∀ id r, w.progress id = .returned r → w.shared.Binds r.intentId r.transactionHash

/-- A statement taking effect breaks the life cycle: a broadcast or a
confirmation whose `UPDATE` does not find the status that was read, a
confirmation that answers with another hash than the intent's, or any
failure. -/
def breaksAt (t : IntentTables) (answer : Answer) : IntentPhase → Bool
  | .storeBroadcast _ row _ => answer ≠ .failed && t.status row.intentHash ≠ some .simulated
  | .storeConfirmation _ row receipt =>
    answer ≠ .failed && t.status row.intentHash ≠ some .broadcast ||
      answer = .returned && row.txHash ≠ some receipt.transactionHash
  | .storeFailure _ => answer ≠ .failed
  | _ => false

/-- A step takes such a statement. -/
def breaks (w : Workers IntentTables IntentPhase IntentReturn) :
    WorkerLabel IntentCall IntentRequest IntentCreation → Bool
  | .call id _ answer =>
    match w.progress id with
    | .running p => breaksAt w.shared answer p
    | _ => false
  | _ => false

/-- **The life cycle is followed**: the intents stand where their events
say, every answered hash is the stored one, and the next step, where it
meets a condition, moves no intent otherwise than along the life cycle,
with one event. -/
structure FollowsLifeCycle (service : TradingService)
    (C : Workers IntentTables IntentPhase IntentReturn →
      WorkerLabel IntentCall IntentRequest IntentCreation → Prop)
    (w : Workers IntentTables IntentPhase IntentReturn) : Prop where
  recorded : Recorded w.shared
  answers : AnswersStored w
  advances : ∀ l w', C w l → service.machine.step w l = some w' → Advances w.shared w'.shared

/-- What an operation relies on, wherever it stands. -/
def Relies (t : IntentTables) : Progress IntentPhase IntentReturn → Prop
  | .running (.getTransaction input row _) | .running (.storeBroadcast input row _) =>
    row.intentHash = input.intentId
  | .running (.getTransactionReceipt input row)
  | .running (.storeConfirmation input row _) =>
    row.intentHash = input.intentId ∧ ∃ h, row.txHash = some h ∧ t.Binds input.intentId h
  | .returned r => t.Binds r.intentId r.transactionHash
  | _ => True

/-- What is relied on stays. -/
theorem Relies.advances {t t' : IntentTables} {p : Progress IntentPhase IntentReturn}
    (h : Relies t p) (ha : Advances t t') : Relies t' p := by
  cases p with
  | running p =>
    cases p with
    | getTransactionReceipt input row =>
      obtain ⟨hk, hash, hrow, hb⟩ := h
      exact ⟨hk, hash, hrow, ha.binds hb⟩
    | storeConfirmation input row receipt =>
      obtain ⟨hk, hash, hrow, hb⟩ := h
      exact ⟨hk, hash, hrow, ha.binds hb⟩
    | _ => exact h
  | returned r => exact ha.binds h
  | _ => exact h

/-- The row an operation reads is stored, under the name it was asked for. -/
theorem mem_of_ownedIntent {t : IntentTables} {input : IntentInput} {row : TransactionIntent}
    (h : t.ownedIntent input = some row) : row ∈ t.intents ∧ row.intentHash = input.intentId := by
  have hfound := List.find?_some h
  simp only [Bool.and_eq_true, decide_eq_true_eq] at hfound
  exact ⟨List.mem_of_find?_eq_some h, hfound.1.1⟩

theorem relies_acceptBroadcast {t : IntentTables} {now : ℕ} {input : IntentInput}
    {row : TransactionIntent} (h : t.ownedIntent input = some row) :
    Relies t (service.acceptBroadcast now input row) := by
  obtain ⟨hmem, hk⟩ := mem_of_ownedIntent h
  unfold acceptBroadcast
  split
  · split
    · rename_i stored requested hstored hrequested
      split
      · exact ⟨row, hmem, hk, hstored⟩
      · exact trivial
    · exact trivial
  · split
    · exact trivial
    · split
      · exact trivial
      · split
        · exact hk
        · exact trivial

theorem relies_acceptConfirmation {t : IntentTables} {input : IntentInput}
    {row : TransactionIntent} (h : t.ownedIntent input = some row) :
    Relies t (service.acceptConfirmation input row) := by
  obtain ⟨hmem, hk⟩ := mem_of_ownedIntent h
  unfold acceptConfirmation
  split
  · exact trivial
  · rename_i requested _
    split
    · exact trivial
    · rename_i hhash
      rw [not_not] at hhash
      have hbinds : t.Binds input.intentId requested := ⟨row, hmem, hk, hhash⟩
      split
      · exact hbinds
      · split
        · exact trivial
        · split
          · exact ⟨hk, requested, hhash, hbinds⟩
          · exact trivial

/-- **What an await leaves** when it does not break the life cycle. -/
theorem advances_of_call {t t' : IntentTables} {p : IntentPhase} {k : IntentCall}
    {n : Progress IntentPhase IntentReturn} {answer : Answer} (hrec : Recorded t)
    (hrel : Relies t (.running p)) (hcall : service.call t p k = some (t', n))
    (hanswer : answer ≠ .failed) (hb : breaksAt t answer p = false) :
    Advances t t' ∧ Recorded t' ∧ (answer = .returned → Relies t' n) := by
  cases k with
  | ownedIntent now =>
    cases p with
    | readForBroadcast input =>
      simp only [call] at hcall
      split at hcall
      · obtain ⟨rfl, rfl⟩ := Prod.mk.inj (Option.some.inj hcall)
        exact ⟨.refl _, hrec, fun _ => trivial⟩
      · rename_i row hrow
        obtain ⟨rfl, rfl⟩ := Prod.mk.inj (Option.some.inj hcall)
        exact ⟨.refl _, hrec, fun _ => relies_acceptBroadcast hrow⟩
    | readForConfirmation input =>
      simp only [call] at hcall
      split at hcall
      · obtain ⟨rfl, rfl⟩ := Prod.mk.inj (Option.some.inj hcall)
        exact ⟨.refl _, hrec, fun _ => trivial⟩
      · rename_i row hrow
        obtain ⟨rfl, rfl⟩ := Prod.mk.inj (Option.some.inj hcall)
        exact ⟨.refl _, hrec, fun _ => relies_acceptConfirmation hrow⟩
    | _ => exact absurd hcall (by simp [call])
  | getTransaction transaction =>
    cases p with
    | getTransaction input row requested =>
      simp only [call] at hcall
      split at hcall
      · obtain ⟨rfl, rfl⟩ := Prod.mk.inj (Option.some.inj hcall)
        exact ⟨.refl _, hrec, fun _ => hrel⟩
      · obtain ⟨rfl, rfl⟩ := Prod.mk.inj (Option.some.inj hcall)
        exact ⟨.refl _, hrec, fun _ => trivial⟩
    | _ => exact absurd hcall (by simp [call])
  | storeBroadcast =>
    cases p with
    | storeBroadcast input row requested =>
      obtain ⟨rfl, rfl⟩ := Prod.mk.inj (Option.some.inj hcall)
      have hs : t.status row.intentHash = some .simulated := by
        simpa [breaksAt, hanswer] using hb
      have ha : Advances t (t.storeBroadcast row.intentHash requested) :=
        advances_storeBroadcast hrec hs
      refine ⟨ha, hrec.logs ha (ha.mem_keys (mem_keys_of_status hs)) rfl, fun _ => ?_⟩
      have hk : row.intentHash = input.intentId := hrel
      rw [← hk]
      exact binds_storeBroadcast hs
    | _ => exact absurd hcall (by simp [call])
  | getTransactionReceipt receipt =>
    cases p with
    | getTransactionReceipt input row =>
      simp only [call] at hcall
      split at hcall
      · obtain ⟨rfl, rfl⟩ := Prod.mk.inj (Option.some.inj hcall)
        exact ⟨.refl _, hrec, fun _ => hrel⟩
      · obtain ⟨rfl, rfl⟩ := Prod.mk.inj (Option.some.inj hcall)
        exact ⟨.refl _, hrec, fun _ => trivial⟩
    | _ => exact absurd hcall (by simp [call])
  | storeFailure =>
    cases p with
    | storeFailure row => exact absurd hb (by simpa [breaksAt] using hanswer)
    | _ => exact absurd hcall (by simp [call])
  | storeConfirmation =>
    cases p with
    | storeConfirmation input row receipt =>
      obtain ⟨rfl, rfl⟩ := Prod.mk.inj (Option.some.inj hcall)
      simp only [breaksAt, Bool.or_eq_false_iff] at hb
      have hs : t.status row.intentHash = some .broadcast := by simpa [hanswer] using hb.1
      have ha : Advances t (t.storeConfirmation row.intentHash receipt.transactionHash
          receipt.blockNumber receipt.blockHash) := advances_storeConfirmation hrec hs
      refine ⟨ha, hrec.logs ha (ha.mem_keys (mem_keys_of_status hs)) rfl, fun hreturned => ?_⟩
      obtain ⟨-, hash, hrow, hbinds⟩ := hrel
      have hsame : row.txHash = some receipt.transactionHash := by simpa [hreturned] using hb.2
      obtain rfl := Option.some.inj (hrow.symm.trans hsame)
      exact ha.binds hbinds
    | _ => exact absurd hcall (by simp [call])

/-- The invariant of the operations. -/
def LifeCycleInvariant : Workers IntentTables IntentPhase IntentReturn → Prop :=
  Workers.Keeps Recorded Relies fun _ _ => True

/-- One operation moved on over an advance. -/
theorem LifeCycleInvariant.put (h : LifeCycleInvariant w) {id : ℕ} {t : IntentTables}
    {n : Progress IntentPhase IntentReturn} (ha : Advances w.shared t) (hrec : Recorded t)
    (hrel : Relies t n) : LifeCycleInvariant (w.put id t n) :=
  Workers.Keeps.put h hrec hrel fun id' _ => ⟨(h.each id').advances ha, trivial, trivial⟩

/-- **A step that does not break the life cycle.** -/
theorem LifeCycleInvariant.step (h : LifeCycleInvariant w) (hb : breaks w l = false)
    (hs : service.procedure.Step w l w') :
    Advances w.shared w'.shared ∧ LifeCycleInvariant w' := by
  cases hs with
  | @start id request hidle =>
    cases request with
    | _ => exact ⟨.refl _, h.put (.refl _) h.shared trivial⟩
  | @returned id k p t n hrun hcall =>
    simp only [breaks, hrun] at hb
    obtain ⟨ha, hrec, hrel⟩ := advances_of_call h.shared (hrun ▸ h.each id) hcall (by simp) hb
    exact ⟨ha, h.put ha hrec (hrel rfl)⟩
  | failed hrun hcall => exact ⟨.refl _, h.put (.refl _) h.shared trivial⟩
  | @unacknowledged id k p t n hrun hcall =>
    simp only [breaks, hrun] at hb
    obtain ⟨ha, hrec, -⟩ := advances_of_call h.shared (hrun ▸ h.each id) hcall (by simp) hb
    exact ⟨ha, h.put ha hrec trivial⟩
  | crash hrun => exact ⟨.refl _, h.put (.refl _) h.shared trivial⟩
  | @env e t henv =>
    cases e with
    | persistIntent draft =>
      have ha : Advances w.shared t := advances_persistIntent henv
      have hrec : Recorded t := recorded_persistIntent h.shared henv
      exact ⟨ha, Workers.Keeps.env h hrec fun id => (h.each id).advances ha⟩

/-- **Nothing but the life cycle**, in every run that does not break it. -/
theorem followsLifeCycle_of_reaches
    (h : service.machine.Reaches (fun w l => breaks w l = false) w) :
    service.FollowsLifeCycle (fun w l => breaks w l = false) w := by
  have hinv : LifeCycleInvariant w := by
    refine Procedure.invariant_of_reaches h (fun w hw hidle => ?_) fun w l w' hI hC hs =>
      (hI.step hC hs).2
    refine ⟨?_, fun id => ?_, fun _ _ _ => trivial⟩
    · rw [hw]
      exact ⟨fun r hr => absurd hr List.not_mem_nil, fun r hr => absurd hr List.not_mem_nil,
        fun e he => absurd he List.not_mem_nil⟩
    · rw [hidle id]
      exact trivial
  refine ⟨hinv.shared, fun id r hr => ?_, fun l w' hC hs => (hinv.step hC (.of_step hs)).1⟩
  have hrel := hinv.each id
  rw [hr] at hrel
  exact hrel

/-- **A final intent is never left**, whatever runs on. -/
theorem final_of_exec {ls : List (WorkerLabel IntentCall IntentRequest IntentCreation)}
    (h : service.machine.Reaches (fun w l => breaks w l = false) w)
    (hmeets : service.machine.Meets (fun w l => breaks w l = false) w ls)
    (hexec : service.machine.exec w ls = some w') {r : TransactionIntent}
    (hr : r ∈ w.shared.intents) (hfinal : r.status = .confirmed ∨ r.status = .failed) :
    ∃ r' ∈ w'.shared.intents, r'.intentHash = r.intentHash ∧ r'.status = r.status ∧
      r'.txHash = r.txHash := by
  induction ls generalizing w r with
  | nil =>
    rw [Machine.exec, Option.some.injEq] at hexec
    exact hexec ▸ ⟨r, hr, rfl, rfl, rfl⟩
  | cons l ls ih =>
    obtain ⟨w₁, hstep, hrest⟩ := Option.bind_eq_some_iff.mp hexec
    have hfollows := followsLifeCycle_of_reaches h
    obtain ⟨r₁, hr₁, hk, hstays | hmoves⟩ := (hfollows.advances l w₁ hmeets.1 hstep).kept r hr
    · have hfinal₁ : r₁.status = .confirmed ∨ r₁.status = .failed := by rwa [hstays.status]
      obtain ⟨r', hr', hk', hstatus, hhash⟩ :=
        ih (h.step hmeets.1 hstep) (hmeets.2 w₁ hstep) hrest hr₁ hfinal₁
      exact ⟨r', hr', hk'.trans hk, hstatus.trans hstays.status, hhash.trans hstays.txHash⟩
    · -- no move leaves a final status
      have hno := hmoves.moves
      rcases hfinal with hstatus | hstatus <;> rw [hstatus] at hno <;> cases hno

/-! ## A sample intent -/

def sampleIntent : TransactionIntent where
  intentHash := ⟨1⟩
  userId := 1
  walletAddress := some ⟨2⟩
  targetAddress := ⟨3⟩
  calldata := some ⟨8, 7⟩
  valueRaw := none
  deadline := some 100
  status := .draft
  txHash := none

/-- A request for it, naming a transaction. -/
def sampleInput (transactionHash : ℕ) : IntentInput := ⟨⟨1⟩, some ⟨transactionHash⟩, 1, ⟨2⟩⟩

def sampleStart : Workers IntentTables IntentPhase IntentReturn := ⟨noIntents, fun _ => .idle⟩

/-- A broadcast up to its database transaction. -/
def broadcastLabels (id transactionHash : ℕ) :
    List (WorkerLabel IntentCall IntentRequest IntentCreation) :=
  [.start id (.recordBroadcast (sampleInput transactionHash)),
    .call id (.ownedIntent 50) .returned,
    .call id (.getTransaction ⟨⟨2⟩, some ⟨3⟩, ⟨8, 7⟩, 0⟩) .returned]

/-- A confirmation, to its end. -/
def confirmationLabels (id transactionHash : ℕ) :
    List (WorkerLabel IntentCall IntentRequest IntentCreation) :=
  [.start id (.recordConfirmation (sampleInput transactionHash)),
    .call id (.ownedIntent 60) .returned,
    .call id (.getTransactionReceipt ⟨⟨transactionHash⟩, true, 9, ⟨9⟩⟩) .returned,
    .call id .storeConfirmation .returned]

/-- One broadcast and its confirmation. -/
def confirmedLabels : List (WorkerLabel IntentCall IntentRequest IntentCreation) :=
  .env (.persistIntent sampleIntent) :: broadcastLabels 0 11 ++
    .call 0 .storeBroadcast .returned :: confirmationLabels 1 11

theorem followsLifeCycle_sample : ∃ w,
    (TradingService.mk true).machine.exec sampleStart confirmedLabels = some w ∧
      FollowsLifeCycle ⟨true⟩ (fun w l => breaks w l = false) w ∧
        w.shared.status ⟨1⟩ = some .confirmed := by
  have hrun : ((TradingService.mk true).machine.exec sampleStart confirmedLabels).map
      (fun w => w.shared.status ⟨1⟩) = some (some .confirmed) := by decide +kernel
  obtain ⟨w, hexec, hconfirmed⟩ := Option.map_eq_some_iff.mp hrun
  have hmeets : (TradingService.mk true).machine.Meets (fun w l => breaks w l = false) sampleStart
      confirmedLabels := by decide +kernel
  exact ⟨w, hexec, followsLifeCycle_of_reaches
    (Machine.Reaches.exec (.init ⟨rfl, fun _ => rfl⟩) hmeets hexec), hconfirmed⟩

/-- Two broadcasts of different transactions, both checked before either
is stored. -/
def racedLabels : List (WorkerLabel IntentCall IntentRequest IntentCreation) :=
  .env (.persistIntent sampleIntent) :: broadcastLabels 0 11 ++ broadcastLabels 1 12 ++
    [.call 0 .storeBroadcast .returned, .call 1 .storeBroadcast .returned]

/-- **Two racing broadcasts**: the second answers with a hash its intent
does not have. -/
theorem not_followsLifeCycle : ¬∀ (service : TradingService)
    (w : Workers IntentTables IntentPhase IntentReturn), service.machine.Reachable w →
      service.FollowsLifeCycle (fun _ _ => True) w := by
  intro h
  have hrun : ((TradingService.mk true).machine.exec sampleStart racedLabels).map (fun w =>
      (w.progress 1, w.shared.intents.rows.map (·.txHash))) =
        some (.returned ⟨⟨1⟩, ⟨12⟩, .broadcast, none⟩, [some ⟨11⟩]) := by decide +kernel
  obtain ⟨w, hexec, hw⟩ := Option.map_eq_some_iff.mp hrun
  obtain ⟨hreturned, hrows⟩ := Prod.mk.inj hw
  obtain ⟨r, hr, -, hhash⟩ := (h _ w (Machine.reachable_of_exec ⟨rfl, fun _ => rfl⟩ hexec)).answers
    1 _ hreturned
  have hmem : r.txHash ∈ w.shared.intents.rows.map (·.txHash) := List.mem_map_of_mem hr
  rw [hrows, hhash] at hmem
  exact absurd hmem (by decide)

end TradingService

end HoodSentry
