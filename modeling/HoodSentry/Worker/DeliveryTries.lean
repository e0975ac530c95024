import HoodSentry.Worker.AlertDelivery
/-!
# Delivered once

A row is claimed at most ten times and each claim starts one send at
most, in every run. That a delivered row stays delivered, and nothing is
sent for it again, takes that one sender at a time works on it: a stale
claim taken over while its sender is still at work, or a success whose
write is stored but not acknowledged, lets a failure follow it.
-/

namespace HoodSentry

namespace DeliveryServices

open DeliveryTables

variable {services : DeliveryServices} {w w' : Workers DeliveryTables DeliveryAttempt DeliveryInput}
variable {l : WorkerLabel DeliveryCall DeliveryInput Empty}
variable {t t' : DeliveryTables} {a : DeliveryAttempt} {n n' : Progress DeliveryAttempt DeliveryInput}

/-- How often a send was started for a delivery. -/
def starts (t : DeliveryTables) (k : DeliveryKey) : ℕ := (t.sends.filter fun s => s.1 = k).length

/-! ## At most ten sends -/

/-- The try of a job that has claimed a delivery and not yet started its
send. -/
def unstarted : Progress DeliveryAttempt DeliveryInput → Option (DeliveryKey × ℕ)
  | .running a =>
    match a.phase with
    | .startSend d _ attempt => some (d.key, attempt)
    | _ => none
  | _ => none

/-- A try some claim has counted. -/
def Counted (t : DeliveryTables) (s : DeliveryKey × ℕ) : Prop :=
  ∃ r, t.find s.1 = some r ∧ 1 ≤ s.2 ∧ s.2 ≤ r.retryCount

/-- The sends started are of different tries, all counted, and no row
counts more than ten. -/
structure TriesCounted (t : DeliveryTables) : Prop where
  nodup : t.sends.Nodup
  counted : ∀ s ∈ t.sends, Counted t s
  bounded : ∀ k r, t.find k = some r → r.retryCount ≤ MAX_DELIVERY_TRIES

/-- The try a job is about to start is counted, and not started yet. -/
def Claimed (t : DeliveryTables) (n : Progress DeliveryAttempt DeliveryInput) : Prop :=
  ∀ s, unstarted n = some s → s ∉ t.sends ∧ Counted t s

/-- Two jobs are about to start different tries. -/
def Apart (n n' : Progress DeliveryAttempt DeliveryInput) : Prop :=
  ∀ s, unstarted n = some s → unstarted n' ≠ some s

/-- **The tries of different claims are different.** -/
def TriesInvariant : Workers DeliveryTables DeliveryAttempt DeliveryInput → Prop :=
  Workers.Keeps TriesCounted Claimed Apart

/-- So a delivery has at most ten sends. -/
theorem TriesCounted.starts_le (h : TriesCounted t) (k : DeliveryKey) :
    starts t k ≤ MAX_DELIVERY_TRIES := by
  have hinj : ((t.sends.filter fun s => s.1 = k).map Prod.snd).Nodup := by
    refine List.Nodup.map_on (fun s hs s' hs' heq => ?_) (h.nodup.filter _)
    have hk : s.1 = k := by simpa using (List.mem_filter.mp hs).2
    have hk' : s'.1 = k := by simpa using (List.mem_filter.mp hs').2
    exact Prod.ext (hk.trans hk'.symm) heq
  have hrange : ((t.sends.filter fun s => s.1 = k).map Prod.snd).toFinset ⊆
      Finset.Icc 1 MAX_DELIVERY_TRIES := by
    intro m hm
    obtain ⟨s, hs, rfl⟩ := List.mem_map.mp (List.mem_toFinset.mp hm)
    obtain ⟨r, hr, hone, hle⟩ := h.counted s (List.mem_filter.mp hs).1
    exact Finset.mem_Icc.mpr ⟨hone, hle.trans (h.bounded _ r hr)⟩
  have hcard := Finset.card_le_card hrange
  rw [List.toFinset_card_of_nodup hinj, List.length_map, Nat.card_Icc] at hcard
  exact hcard

/-- Counts only grow, and nothing is started. -/
structure Grows (t t' : DeliveryTables) : Prop where
  sends : t'.sends = t.sends
  count : ∀ k r, t.find k = some r → ∃ r', t'.find k = some r' ∧ r.retryCount ≤ r'.retryCount
  bounded : ∀ k r', t'.find k = some r' → r'.retryCount ≤ MAX_DELIVERY_TRIES ∨
    ∃ r, t.find k = some r ∧ r'.retryCount = r.retryCount

theorem Grows.refl (t : DeliveryTables) : Grows t t :=
  ⟨rfl, fun _ r hr => ⟨r, hr, le_rfl⟩, fun _ r hr => Or.inr ⟨r, hr, rfl⟩⟩

theorem Grows.counted (h : Grows t t') {s : DeliveryKey × ℕ} (hs : Counted t s) : Counted t' s := by
  obtain ⟨r, hr, hone, hle⟩ := hs
  obtain ⟨r', hr', hcount⟩ := h.count s.1 r hr
  exact ⟨r', hr', hone, hle.trans hcount⟩

theorem Grows.claimed (h : Grows t t') (hn : Claimed t n) : Claimed t' n := by
  intro s hs
  rw [h.sends]
  exact ⟨(hn s hs).1, h.counted (hn s hs).2⟩

theorem Grows.triesCounted (h : Grows t t') (ht : TriesCounted t) : TriesCounted t' where
  nodup := h.sends ▸ ht.nodup
  counted s hs := h.counted (ht.counted s (h.sends ▸ hs))
  bounded k r' hr' := by
    rcases h.bounded k r' hr' with hle | ⟨r, hr, heq⟩
    · exact hle
    · exact heq ▸ ht.bounded k r hr

theorem grows_insertPending {k : DeliveryKey} {now : ℕ} : Grows t (t.insertPending k now) where
  sends := rfl
  count k' r hr := ⟨r, find_insertPending_of_some hr, le_rfl⟩
  bounded k' r' hr' := by
    rw [find_insertPending] at hr'
    cases hold : t.find k' with
    | some r =>
      rw [hold, Option.some_or, Option.some.injEq] at hr'
      exact Or.inr ⟨r, rfl, hr' ▸ rfl⟩
    | none =>
      rw [hold, Option.none_or] at hr'
      split at hr'
      · obtain rfl := Option.some.inj hr'
        exact Or.inl (Nat.zero_le _)
      · exact absurd hr' (by simp)

/-- An `UPDATE` that does not lower the count, or takes it past ten. -/
theorem grows_update {k : DeliveryKey} {p : Delivery → Bool} {f : Delivery → Delivery}
    {hf : ∀ r, (f r).key = r.key} (hcount : ∀ r, r.retryCount ≤ (f r).retryCount)
    (hbound : ∀ r, p r = true → (f r).retryCount ≤ MAX_DELIVERY_TRIES ∨
      (f r).retryCount = r.retryCount) : Grows t (t.update k p f hf) where
  sends := rfl
  count k' r hr := by
    refine ⟨_, by rw [find_update, hr, Option.map_some], ?_⟩
    split
    · exact hcount r
    · exact le_rfl
  bounded k' r' hr' := by
    rw [find_update, Option.map_eq_some_iff] at hr'
    obtain ⟨r, hr, rfl⟩ := hr'
    split
    · rename_i hhit
      rw [Bool.and_eq_true] at hhit
      exact (hbound r hhit.2).imp_right fun heq => ⟨r, hr, heq⟩
    · exact Or.inr ⟨r, hr, rfl⟩

theorem grows_claim {k : DeliveryKey} {now written : ℕ} : Grows t (t.claim k now written) := by
  refine grows_update (fun r => Nat.le_succ _) fun r hr => Or.inl ?_
  simp only [Delivery.claimable, Bool.and_eq_true, decide_eq_true_eq] at hr
  exact hr.1

theorem grows_storeDelivered {k : DeliveryKey} {now : ℕ} : Grows t (t.storeDelivered k now) :=
  grows_update (fun _ => le_rfl) fun _ _ => Or.inr rfl

theorem grows_storeFailed {k : DeliveryKey} {code : String} {now : ℕ} :
    Grows t (t.storeFailed k code now) :=
  grows_update (fun _ => le_rfl) fun _ _ => Or.inr rfl

/-- Between deliveries a job is about to start nothing. -/
theorem unstarted_proceed {rest : List PlannedDelivery} : unstarted (proceed a rest) = none := by
  cases rest with
  | cons d rest => rfl
  | nil =>
    rw [proceed]
    split
    · rfl
    · split <;> rfl

theorem unstarted_thrown : unstarted (thrown a) = none := by
  unfold thrown
  split <;> rfl

/-- A job that is about to start nothing moves on. -/
theorem TriesInvariant.put (h : TriesInvariant w) {id : ℕ} (hgrows : Grows w.shared t)
    (hn : unstarted n = none) : TriesInvariant (w.put id t n) := by
  refine Workers.Keeps.put h (hgrows.triesCounted h.shared) (fun s hs => ?_) fun id' _ =>
    ⟨hgrows.claimed (h.each id'), fun s hs => ?_, fun s _ => ?_⟩
  · exact absurd (hn.symm.trans hs) (by simp)
  · exact absurd (hn.symm.trans hs) (by simp)
  · rw [hn]
    simp

/-- **A claim counts a try of its own.** -/
theorem TriesInvariant.claim (h : TriesInvariant w) {id : ℕ} {d : PlannedDelivery}
    {rest : List PlannedDelivery} {now written : ℕ} {r : Delivery}
    (hfind : w.shared.find d.key = some r) (hr : r.claimable now = true) :
    TriesInvariant (w.put id (w.shared.claim d.key now written)
      (.running { a with phase := .startSend d rest (r.retryCount + 1) })) := by
  have hgrows : Grows w.shared (w.shared.claim d.key now written) := grows_claim
  -- every try counted before is below the new one
  have hfresh : ∀ s, Counted w.shared s → s ≠ (d.key, r.retryCount + 1) := by
    rintro s ⟨r', hr', -, hle⟩ rfl
    obtain rfl := Option.some.inj (hfind.symm.trans hr')
    exact absurd hle (by simp)
  refine Workers.Keeps.put h (hgrows.triesCounted h.shared) (fun s hs => ?_) fun id' _ =>
    ⟨hgrows.claimed (h.each id'), fun s hs hs' => ?_, fun s hs hs' => ?_⟩
  · obtain rfl := Option.some.inj hs
    refine ⟨fun hmem => hfresh _ (h.shared.counted _ (hgrows.sends ▸ hmem)) rfl, ?_⟩
    exact ⟨_, find_claim hfind hr, Nat.le_add_left 1 _, le_rfl⟩
  · exact hfresh s (h.each id' s hs').2 (Option.some.inj hs).symm
  · exact hfresh s (h.each id' s hs).2 (Option.some.inj hs').symm

/-- A send started is of the job's own try. -/
theorem TriesInvariant.start (h : TriesInvariant w) {id attempt : ℕ} {d : PlannedDelivery}
    {rest : List PlannedDelivery} (hrun : w.progress id = .running a)
    (hphase : a.phase = .startSend d rest attempt) (hn : unstarted n = none) :
    TriesInvariant (w.put id { w.shared with sends := (d.key, attempt) :: w.shared.sends } n) := by
  have hown : unstarted (w.progress id) = some (d.key, attempt) := by
    rw [hrun, unstarted, hphase]
  obtain ⟨hnew, hcounted⟩ := h.each id _ hown
  refine Workers.Keeps.put h ⟨List.nodup_cons.mpr ⟨hnew, h.shared.nodup⟩, fun s hs => ?_,
    h.shared.bounded⟩ (fun s hs => ?_) fun id' hid => ⟨fun s hs => ?_, fun s hs => ?_, fun s _ => ?_⟩
  · rcases List.mem_cons.mp hs with rfl | hold
    · exact hcounted
    · exact h.shared.counted s hold
  · exact absurd (hn.symm.trans hs) (by simp)
  · obtain ⟨hnot, hcount⟩ := h.each id' s hs
    refine ⟨fun hmem => ?_, hcount⟩
    rcases List.mem_cons.mp hmem with rfl | hold
    · exact h.pairs id id' (Ne.symm hid) _ hown hs
    · exact hnot hold
  · exact absurd (hn.symm.trans hs) (by simp)
  · rw [hn]
    simp

theorem TriesInvariant.step (h : TriesInvariant w) (hs : services.procedure.Step w l w') :
    TriesInvariant w' := by
  cases hs with
  | start hidle => exact h.put (.refl _) rfl
  | @returned id k a t n hrun hcall =>
    cases Effect.of_call hcall with
    | inserted => exact h.put grows_insertPending rfl
    | claimed d rest now written r hphase hfind hclaimable => exact h.claim hfind hclaimable
    | started d rest attempt hphase => exact h.start hrun hphase rfl
    | delivered => exact h.put grows_storeDelivered unstarted_proceed
    | failureStored => exact h.put grows_storeFailed unstarted_proceed
    | channels | passed | endpoints => exact h.put (.refl _) unstarted_proceed
    | _ => exact h.put (.refl _) rfl
  | failed hrun hcall => exact h.put (.refl _) unstarted_thrown
  | @unacknowledged id k a t n hrun hcall =>
    cases Effect.of_call hcall with
    | inserted => exact h.put grows_insertPending unstarted_thrown
    | claimed => exact h.put grows_claim unstarted_thrown
    | started d rest attempt hphase => exact h.start hrun hphase unstarted_thrown
    | delivered => exact h.put grows_storeDelivered unstarted_thrown
    | failureStored => exact h.put grows_storeFailed unstarted_thrown
    | _ => exact h.put (.refl _) unstarted_thrown
  | crash hrun => exact h.put (.refl _) rfl
  | @env e t henv => exact e.elim

/-- **No delivery is sent more than ten times**, in any run. -/
theorem starts_le_of_reachable (h : services.machine.Reachable w) (k : DeliveryKey) :
    starts w.shared k ≤ MAX_DELIVERY_TRIES := by
  have hinv : TriesInvariant w := by
    refine Procedure.invariant_of_reaches h (fun w hw hidle => ?_) fun w l w' hI _ hs => hI.step hs
    refine ⟨?_, fun id s hs => ?_, fun id id' _ s hs => ?_⟩
    · rw [hw]
      exact ⟨List.nodup_nil, fun s hs => absurd hs List.not_mem_nil,
        fun k r hr => absurd hr (by simp [noDeliveries, find])⟩
    · rw [hidle id] at hs
      exact absurd hs (by simp [unstarted])
    · rw [hidle id] at hs
      exact absurd hs (by simp [unstarted])
  exact hinv.shared.starts_le k

/-! ## One sender at a time -/

/-- The delivery a job has claimed and not yet written back. -/
def sender : Progress DeliveryAttempt DeliveryInput → Option DeliveryKey
  | .running a =>
    match a.phase with
    | .startSend d _ _ | .send d _ | .storeDelivered d _ | .storeFailed d _ _ => some d.key
    | _ => none
  | _ => none

/-- **A delivered row stays delivered, and is not sent again**: the next
step, where it meets a condition, leaves it so and starts no send for it;
and no row has more than ten sends. -/
structure StaysDelivered (services : DeliveryServices)
    (C : Workers DeliveryTables DeliveryAttempt DeliveryInput →
      WorkerLabel DeliveryCall DeliveryInput Empty → Prop)
    (w : Workers DeliveryTables DeliveryAttempt DeliveryInput) : Prop where
  tries : ∀ k, starts w.shared k ≤ MAX_DELIVERY_TRIES
  delivered : ∀ l w', C w l → services.machine.step w l = some w' → ∀ k r,
    w.shared.find k = some r → r.status = .delivered →
      (∃ r', w'.shared.find k = some r' ∧ r'.status = .delivered) ∧
        starts w'.shared k = starts w.shared k

/-- A claim takes over a stale row whose sender is still at work. -/
def TakesOver (w : Workers DeliveryTables DeliveryAttempt DeliveryInput) :
    WorkerLabel DeliveryCall DeliveryInput Empty → Prop
  | .call id (.claim now _) answer => answer ≠ .failed ∧ ∃ a d rest r id',
      w.progress id = .running a ∧ a.phase = .claim d rest ∧ w.shared.find d.key = some r ∧
        r.stale now = true ∧ sender (w.progress id') = some d.key
  | _ => False

/-- The write of a success has its effect and throws, which the `catch`
takes for a failed send. -/
def forgets : WorkerLabel DeliveryCall DeliveryInput Empty → Bool
  | .call _ (.storeDelivered _) .unacknowledged => true
  | _ => false

/-- The row a job works on is in `sent`. -/
def Sent (t : DeliveryTables) (n : Progress DeliveryAttempt DeliveryInput) : Prop :=
  ∀ k, sender n = some k → ∃ r, t.find k = some r ∧ r.status = .sent

/-- Two jobs work on different rows. -/
def Separate (n n' : Progress DeliveryAttempt DeliveryInput) : Prop :=
  ∀ k, sender n = some k → sender n' ≠ some k

def SenderInvariant : Workers DeliveryTables DeliveryAttempt DeliveryInput → Prop :=
  Workers.Keeps (fun _ => True) Sent Separate

theorem sender_proceed {rest : List PlannedDelivery} : sender (proceed a rest) = none := by
  cases rest with
  | cons d rest => rfl
  | nil =>
    rw [proceed]
    split
    · rfl
    · split <;> rfl

/-- A throw in the send leaves a job at its row. -/
theorem sender_thrown {k : DeliveryKey} (h : sender (thrown a) = some k) :
    sender (.running a) = some k := by
  unfold thrown at h
  split at h <;> rename_i hphase
  · rw [sender, hphase]
    exact h
  · rw [sender, hphase]
    exact h
  · rw [sender, hphase]
    exact h
  · exact absurd h (by simp [sender])

/-- What a step leaves delivered. -/
def LeavesDelivered (t t' : DeliveryTables) : Prop :=
  ∀ k r, t.find k = some r → r.status = .delivered →
    (∃ r', t'.find k = some r' ∧ r'.status = .delivered) ∧ starts t' k = starts t k

theorem LeavesDelivered.refl (t : DeliveryTables) : LeavesDelivered t t := fun _ r hr hd =>
  ⟨⟨r, hr, hd⟩, rfl⟩

/-- An `UPDATE` of a row that is not delivered, or that leaves it so. -/
theorem leavesDelivered_update {k : DeliveryKey} {p : Delivery → Bool} {f : Delivery → Delivery}
    {hf : ∀ r, (f r).key = r.key}
    (h : ∀ r, t.find k = some r → r.status = .delivered → p r = true → (f r).status = .delivered) :
    LeavesDelivered t (t.update k p f hf) := by
  intro k' r hr hdelivered
  refine ⟨⟨_, by rw [find_update, hr, Option.map_some], ?_⟩, rfl⟩
  split
  · rename_i hhit
    rw [Bool.and_eq_true, decide_eq_true_eq] at hhit
    exact h r (hhit.1 ▸ hr) hdelivered hhit.2
  · exact hdelivered

/-- A job works on no row, or on the one it did. -/
def Narrows (n n' : Progress DeliveryAttempt DeliveryInput) : Prop :=
  ∀ k, sender n' = some k → sender n = some k

/-- **A job moved on within its row, or off it**, when the rows of the
others are left as they are. -/
theorem SenderInvariant.put (h : SenderInvariant w) {id : ℕ}
    (hnarrows : Narrows (w.progress id) n) (hn : Sent t n)
    (hothers : ∀ id', id' ≠ id → ∀ k, sender (w.progress id') = some k →
      ∀ r, w.shared.find k = some r → r.status = .sent →
        ∃ r', t.find k = some r' ∧ r'.status = .sent) : SenderInvariant (w.put id t n) := by
  refine Workers.Keeps.put h trivial hn fun id' hid => ⟨fun k hk => ?_, fun k hk => ?_,
    fun k hk hk' => ?_⟩
  · obtain ⟨r, hr, hsent⟩ := h.each id' k hk
    exact hothers id' hid k hk r hr hsent
  · exact h.pairs id id' (Ne.symm hid) k (hnarrows k hk)
  · exact h.pairs id' id hid k hk (hnarrows k hk')

/-- An `UPDATE` of the row a job works on, with which it is done. -/
theorem SenderInvariant.update (h : SenderInvariant w) {id : ℕ} {d : DeliveryKey}
    {p : Delivery → Bool} {f : Delivery → Delivery} {hf : ∀ r, (f r).key = r.key}
    (hown : sender (w.progress id) = some d) (hn : sender n = none) :
    SenderInvariant (w.put id (w.shared.update d p f hf) n) := by
  refine h.put (fun k hk => absurd (hn.symm.trans hk) (by simp))
    (fun k hk => absurd (hn.symm.trans hk) (by simp)) fun id' hid k hk r hr hsent => ?_
  have hne : k ≠ d := by
    rintro rfl
    exact h.pairs id id' (Ne.symm hid) k hown hk
  exact ⟨r, by rw [find_update_of_ne hne]; exact hr, hsent⟩

/-- A step that touches no row. -/
theorem SenderInvariant.still (h : SenderInvariant w) {id : ℕ} (hfind : t.deliveries = w.shared.deliveries)
    (hnarrows : Narrows (w.progress id) n) : SenderInvariant (w.put id t n) := by
  have hsame : ∀ k, t.find k = w.shared.find k := fun k => by rw [find, find, hfind]
  refine h.put hnarrows (fun k hk => ?_) fun id' _ k _ r hr hsent => ⟨r, (hsame k).trans hr, hsent⟩
  rw [hsame]
  exact h.each id k (hnarrows k hk)

/-- A claimed row is in `sent`, and every other stays where it was. -/
theorem find_claim_of_sent {k : DeliveryKey} {key : DeliveryKey} {now written : ℕ} {r : Delivery}
    (hr : t.find k = some r) (hsent : r.status = .sent) :
    ∃ r', (t.claim key now written).find k = some r' ∧ r'.status = .sent := by
  refine ⟨_, by rw [claim, find_update, hr, Option.map_some], ?_⟩
  split
  · rfl
  · exact hsent

theorem leavesDelivered_claim {k : DeliveryKey} {now written : ℕ} :
    LeavesDelivered t (t.claim k now written) := by
  refine leavesDelivered_update fun r _ hdelivered hclaimable => ?_
  simp [Delivery.claimable, Delivery.stale, hdelivered] at hclaimable

theorem leavesDelivered_insertPending {k : DeliveryKey} {now : ℕ} :
    LeavesDelivered t (t.insertPending k now) := fun _ r hr hd =>
  ⟨⟨r, find_insertPending_of_some hr, hd⟩, rfl⟩

/-- A failure over a row in `sent`. -/
theorem leavesDelivered_storeFailed {k : DeliveryKey} {code : String} {now : ℕ}
    (h : ∃ r, t.find k = some r ∧ r.status = .sent) :
    LeavesDelivered t (t.storeFailed k code now) := by
  refine leavesDelivered_update fun r hr hdelivered _ => ?_
  obtain ⟨r', hr', hsent⟩ := h
  obtain rfl := Option.some.inj (hr.symm.trans hr')
  exact absurd (hdelivered.symm.trans hsent) (by simp)

/-- A send started for a row in `sent`. -/
theorem leavesDelivered_start {d : DeliveryKey} {attempt : ℕ}
    (h : ∃ r, t.find d = some r ∧ r.status = .sent) :
    LeavesDelivered t { t with sends := (d, attempt) :: t.sends } := by
  intro k r hr hdelivered
  refine ⟨⟨r, hr, hdelivered⟩, ?_⟩
  have hne : d ≠ k := by
    rintro rfl
    obtain ⟨r', hr', hsent⟩ := h
    obtain rfl := Option.some.inj (hr.symm.trans hr')
    exact absurd (hdelivered.symm.trans hsent) (by simp)
  rw [starts, starts, List.filter_cons_of_neg (by simpa using hne)]

/-- **A claim finds no other sender**, unless it takes over. -/
theorem SenderInvariant.claim (h : SenderInvariant w) {id : ℕ} {d : PlannedDelivery}
    {rest : List PlannedDelivery} {attempt now written : ℕ} {r : Delivery}
    (hrun : w.progress id = .running a) (hphase : a.phase = .claim d rest)
    (hfind : w.shared.find d.key = some r) (hr : r.claimable now = true)
    (hC : ¬TakesOver w (.call id (.claim now written) .returned)) :
    SenderInvariant (w.put id (w.shared.claim d.key now written)
      (.running { a with phase := .startSend d rest attempt })) := by
  have hfree : ∀ id', sender (w.progress id') ≠ some d.key := by
    intro id' hsender
    obtain ⟨r', hr', hsent⟩ := h.each id' d.key hsender
    obtain rfl := Option.some.inj (hfind.symm.trans hr')
    have hstale : r.stale now = true := by
      simpa [Delivery.claimable, hsent] using (Bool.and_eq_true_iff.mp hr).2
    exact hC ⟨by simp, a, d, rest, r, id', hrun, hphase, hfind, hstale, hsender⟩
  refine Workers.Keeps.put h trivial (fun k hk => ?_) fun id' _ => ⟨fun k hk => ?_,
    fun k hk hk' => ?_, fun k hk hk' => ?_⟩
  · obtain rfl := Option.some.inj hk
    exact ⟨_, find_claim hfind hr, rfl⟩
  · obtain ⟨r', hr', hsent⟩ := h.each id' k hk
    exact find_claim_of_sent hr' hsent
  · obtain rfl := Option.some.inj hk
    exact hfree id' hk'
  · obtain rfl := Option.some.inj hk'
    exact hfree id' hk

/-- **A step that takes nothing over and forgets nothing.** -/
theorem SenderInvariant.step (h : SenderInvariant w) (htakes : ¬TakesOver w l)
    (hforgets : forgets l = false) (hs : services.procedure.Step w l w') :
    SenderInvariant w' ∧ LeavesDelivered w.shared w'.shared := by
  have hnone : ∀ {id : ℕ} {n : Progress DeliveryAttempt DeliveryInput}, sender n = none →
      Narrows (w.progress id) n := fun hn k hk => absurd (hn.symm.trans hk) (by simp)
  cases hs with
  | start hidle => exact ⟨h.still rfl (hnone rfl), .refl _⟩
  | @returned id k a t n hrun hcall =>
    have hown : ∀ k, sender (.running a) = some k → sender (w.progress id) = some k := by
      rw [hrun]
      exact fun _ hk => hk
    cases Effect.of_call hcall with
    | malformed => exact ⟨h.still rfl (hnone rfl), .refl _⟩
    | channels | passed | endpoints => exact ⟨h.still rfl (hnone sender_proceed), .refl _⟩
    | inserted d rest now hphase =>
      refine ⟨h.put (hnone rfl) (fun k hk => absurd hk (by simp [sender])) fun _ _ k _ r hr hsent =>
        ⟨r, find_insertPending_of_some hr, hsent⟩, leavesDelivered_insertPending⟩
    | claimed d rest now written r hphase hfind hclaimable =>
      exact ⟨h.claim hrun hphase hfind hclaimable htakes, leavesDelivered_claim⟩
    | refused d rest attempt code hphase | succeeded d rest hphase | failed d rest code hphase =>
      refine ⟨h.still rfl fun k hk => hown k ?_, .refl _⟩
      rw [sender, hphase]
      exact hk
    | started d rest attempt hphase =>
      have hsender : sender (w.progress id) = some d.key := hown _ (by rw [sender, hphase])
      refine ⟨h.still rfl fun k hk => ?_, leavesDelivered_start (h.each id _ hsender)⟩
      rw [hsender]
      exact hk
    | delivered d rest now hphase =>
      have hsender : sender (w.progress id) = some d.key := hown _ (by rw [sender, hphase])
      exact ⟨h.update hsender sender_proceed, leavesDelivered_update fun _ _ _ _ => rfl⟩
    | failureStored d rest code now hphase =>
      have hsender : sender (w.progress id) = some d.key := hown _ (by rw [sender, hphase])
      exact ⟨h.update hsender sender_proceed, leavesDelivered_storeFailed (h.each id _ hsender)⟩
  | @failed id k a t n hrun hcall =>
    refine ⟨h.still rfl fun k hk => ?_, .refl _⟩
    rw [hrun]
    exact sender_thrown hk
  | @unacknowledged id k a t n hrun hcall =>
    have hthrown : Narrows (w.progress id) (thrown a) := fun k hk => by
      rw [hrun]
      exact sender_thrown hk
    cases Effect.of_call hcall with
    | inserted d rest now hphase =>
      have hno : sender (thrown a) = none := by rw [thrown, hphase]; rfl
      refine ⟨h.put hthrown (fun k hk => absurd (hno.symm.trans hk) (by simp))
        fun _ _ k _ r hr hsent => ⟨r, find_insertPending_of_some hr, hsent⟩,
        leavesDelivered_insertPending⟩
    | claimed d rest now written r hphase hfind hclaimable =>
      have hno : sender (thrown a) = none := by rw [thrown, hphase]; rfl
      exact ⟨h.put hthrown (fun k hk => absurd (hno.symm.trans hk) (by simp))
        fun _ _ k _ r hr hsent => find_claim_of_sent hr hsent, leavesDelivered_claim⟩
    | started d rest attempt hphase =>
      have hsender : sender (w.progress id) = some d.key := by rw [hrun, sender, hphase]
      exact ⟨h.still rfl hthrown, leavesDelivered_start (h.each id _ hsender)⟩
    | delivered => exact absurd hforgets (by simp [forgets])
    | failureStored d rest code now hphase =>
      have hsender : sender (w.progress id) = some d.key := by rw [hrun, sender, hphase]
      have hno : sender (thrown a) = none := by rw [thrown, hphase]; rfl
      exact ⟨h.update hsender hno, leavesDelivered_storeFailed (h.each id _ hsender)⟩
    | _ => exact ⟨h.still rfl hthrown, .refl _⟩
  | crash hrun => exact ⟨h.still rfl (hnone rfl), .refl _⟩
  | @env e t henv => exact e.elim

/-- **Delivered once**, in every run in which no claim takes over a sender
at work and no write of a success goes unacknowledged. -/
theorem staysDelivered_of_reaches
    (h : services.machine.Reaches (fun w l => ¬TakesOver w l ∧ forgets l = false) w) :
    services.StaysDelivered (fun w l => ¬TakesOver w l ∧ forgets l = false) w := by
  have hinv : SenderInvariant w := by
    refine Procedure.invariant_of_reaches h (fun w hw hidle => ?_) fun w l w' hI hC hs =>
      (hI.step hC.1 hC.2 hs).1
    refine ⟨trivial, fun id k hk => ?_, fun id id' _ k hk => ?_⟩ <;>
      rw [hidle id] at hk <;> exact absurd hk (by simp [sender])
  exact ⟨starts_le_of_reachable h.reachable, fun l w' hC hs =>
    (hinv.step hC.1 hC.2 (.of_step hs)).2⟩

/-! ## A slow sender -/

/-- A claim meets a stale row, whoever is at work on it. -/
def meetsStale (w : Workers DeliveryTables DeliveryAttempt DeliveryInput) :
    WorkerLabel DeliveryCall DeliveryInput Empty → Bool
  | .call id (.claim now _) _ =>
    match w.progress id with
    | .running a =>
      match a.phase with
      | .claim d _ => (w.shared.find d.key).any (Delivery.stale now)
      | _ => false
    | _ => false
  | _ => false

theorem not_takesOver_of_meetsStale (h : meetsStale w l = false) : ¬TakesOver w l := by
  intro htakes
  cases l with
  | call id k answer =>
    cases k with
    | claim now written =>
      obtain ⟨-, a, d, rest, r, id', hrun, hphase, hfind, hstale, -⟩ := htakes
      simp [meetsStale, hrun, hphase, hfind, hstale] at h
    | _ => exact htakes
  | _ => exact htakes

/-- A mail delivered, and the job delivered once more. -/
def twiceLabels : List (WorkerLabel DeliveryCall DeliveryInput Empty) :=
  claimLabels 0 0 mailRule ++ sendLabels 0 1 ++ claimLabels 1 400000 mailRule

theorem staysDelivered_sample : ∃ w,
    sampleServices.machine.exec sampleStart twiceLabels = some w ∧
      sampleServices.StaysDelivered (fun w l => ¬TakesOver w l ∧ forgets l = false) w ∧
        w.shared.find ⟨.channel 1, 1⟩ = some ⟨⟨.channel 1, 1⟩, .delivered, 1, none, 1⟩ := by
  have hrun : (sampleServices.machine.exec sampleStart twiceLabels).map (fun w =>
      w.shared.find ⟨.channel 1, 1⟩) =
        some (some ⟨⟨.channel 1, 1⟩, .delivered, 1, none, 1⟩) := by decide +kernel
  obtain ⟨w, hexec, hdelivered⟩ := Option.map_eq_some_iff.mp hrun
  have hmeets : sampleServices.machine.Meets (fun w l => meetsStale w l = false ∧ forgets l = false)
      sampleStart twiceLabels := by decide +kernel
  have hinit : sampleServices.machine.Init sampleStart := ⟨rfl, fun _ => rfl⟩
  have hreaches : sampleServices.machine.Reaches (fun w l => ¬TakesOver w l ∧ forgets l = false) w :=
    ((Machine.Reaches.init hinit).exec hmeets hexec).mono
      fun _ _ hC => ⟨not_takesOver_of_meetsStale hC.1, hC.2⟩
  exact ⟨w, hexec, staysDelivered_of_reaches hreaches, hdelivered⟩

/-- A sender that takes longer than five minutes, one that takes over and
delivers, and then the failure of the first. -/
def slowLabels : List (WorkerLabel DeliveryCall DeliveryInput Empty) :=
  claimLabels 0 0 mailRule ++ .call 0 .startSend .returned ::
    (claimLabels 1 400000 mailRule ++ sendLabels 1 400001 ++
      [.call 0 (.send (some "PROVIDER_TIMEOUT")) .returned])

/-- **The slow sender's failure** is stored over the delivery. -/
theorem not_staysDelivered : ¬∀ (services : DeliveryServices)
    (w : Workers DeliveryTables DeliveryAttempt DeliveryInput), services.machine.Reachable w →
      services.StaysDelivered (fun _ _ => True) w := by
  intro h
  have hrun : (sampleServices.machine.exec sampleStart slowLabels).map (fun w =>
      (w.shared.find ⟨.channel 1, 1⟩,
        (sampleServices.machine.step w (.call 0 (.storeFailed 400002) .returned)).map fun w' =>
          (w'.shared.find ⟨.channel 1, 1⟩).map (·.status))) =
        some (some ⟨⟨.channel 1, 1⟩, .delivered, 2, none, 400001⟩, some (some .failed)) := by
    decide +kernel
  obtain ⟨w, hexec, hw⟩ := Option.map_eq_some_iff.mp hrun
  obtain ⟨hfind, hnext⟩ := Prod.mk.inj hw
  obtain ⟨w', hstep, hstatus⟩ := Option.map_eq_some_iff.mp hnext
  obtain ⟨⟨r', hr', hdelivered⟩, -⟩ :=
    (h sampleServices w (Machine.reachable_of_exec ⟨rfl, fun _ => rfl⟩ hexec)).delivered _ w' trivial
      hstep _ _ hfind rfl
  rw [hr', Option.map_some, hdelivered] at hstatus
  exact absurd hstatus (by decide)

end DeliveryServices

end HoodSentry
