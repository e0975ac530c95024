import HoodSentry.Worker.Helpers.AlertDelivery
/-!
# A delivered alert

`deliver` returns once every delivery it planned is stored as delivered
or was not to be claimed. A delivery is not claimed when it is delivered
or has used its tries, and also while it stands in `sent`, where a worker
may have left it for good.
-/

namespace HoodSentry

namespace DeliveryTables

variable {t t' : DeliveryTables} {k : DeliveryKey}

/-- A delivery is delivered, or has used its tries. -/
def Done (t : DeliveryTables) (k : DeliveryKey) : Prop :=
  ∃ r, t.find k = some r ∧ (r.status = .delivered ∨ MAX_DELIVERY_TRIES ≤ r.retryCount)

/-- What is stored stays stored, and what is done stays done. -/
structure Keeps (t t' : DeliveryTables) : Prop where
  stored : ∀ k, (t.find k).isSome → (t'.find k).isSome
  done : ∀ k, t.Done k → t'.Done k

theorem Keeps.refl (t : DeliveryTables) : Keeps t t := ⟨fun _ h => h, fun _ h => h⟩

theorem keeps_insertPending {now : ℕ} : Keeps t (t.insertPending k now) where
  stored k' h := by
    obtain ⟨r, hr⟩ := Option.isSome_iff_exists.mp h
    rw [find_insertPending_of_some hr]
    rfl
  done k' h := by
    obtain ⟨r, hr, hdone⟩ := h
    exact ⟨r, find_insertPending_of_some hr, hdone⟩

/-- An `UPDATE` keeps what is done when it does so on the rows it meets. -/
theorem keeps_update {p : Delivery → Bool} {f : Delivery → Delivery}
    {hf : ∀ r, (f r).key = r.key}
    (h : ∀ r, t.find k = some r → p r = true →
      r.status = .delivered ∨ MAX_DELIVERY_TRIES ≤ r.retryCount →
      (f r).status = .delivered ∨ MAX_DELIVERY_TRIES ≤ (f r).retryCount) :
    Keeps t (t.update k p f hf) where
  stored k' hk' := by
    rw [find_update, Option.isSome_map]
    exact hk'
  done k' hdone := by
    obtain ⟨r, hr, hdone⟩ := hdone
    refine ⟨_, by rw [find_update, hr, Option.map_some], ?_⟩
    by_cases hhit : k' = k ∧ p r = true
    · obtain ⟨rfl, hp⟩ := hhit
      simpa [hp] using h r hr hp hdone
    · have hmiss : (decide (k' = k) && p r) = false := by
        simpa [Bool.and_eq_true] using hhit
      simpa [hmiss] using hdone

/-- A claim takes a delivery that is not done, or one more try. -/
theorem keeps_claim {now written : ℕ} : Keeps t (t.claim k now written) := by
  refine keeps_update fun r _ hclaimable hdone => ?_
  simp only [Delivery.claimable, Delivery.stale, Bool.and_eq_true, Bool.or_eq_true,
    decide_eq_true_eq] at hclaimable
  obtain ⟨htries, hstatus⟩ := hclaimable
  rcases hdone with hdelivered | hused
  · simp [hdelivered] at hstatus
  · omega

theorem keeps_storeDelivered {now : ℕ} : Keeps t (t.storeDelivered k now) :=
  keeps_update fun _ _ _ _ => Or.inl rfl

/-- A failure undoes nothing but a delivery with tries left. -/
theorem keeps_storeFailed {code : String} {now : ℕ}
    (h : ∀ r, t.find k = some r → r.status = .delivered → MAX_DELIVERY_TRIES ≤ r.retryCount) :
    Keeps t (t.storeFailed k code now) :=
  keeps_update fun r hr _ hdone => Or.inr (hdone.elim (h r hr) fun hused => hused)

/-- A delivery stored as delivered is done. -/
theorem done_storeDelivered {now : ℕ} (h : (t.find k).isSome) : (t.storeDelivered k now).Done k := by
  obtain ⟨r, hr⟩ := Option.isSome_iff_exists.mp h
  exact ⟨_, find_storeDelivered hr, Or.inl rfl⟩

end DeliveryTables

namespace DeliveryServices

open DeliveryTables

variable {services : DeliveryServices} {w w' : Workers DeliveryTables DeliveryAttempt DeliveryInput}
variable {l : WorkerLabel DeliveryCall DeliveryInput Empty}
variable {t t' : DeliveryTables} {a : DeliveryAttempt} {n : Progress DeliveryAttempt DeliveryInput}

/-! ## What a job is to deliver -/

variable (services) in
/-- The deliveries of a rule's subscribed endpoints. -/
def endpointKeys (input : DeliveryInput) : List DeliveryKey :=
  (services.subscribedEndpoints input.rule).map fun e => ⟨.endpoint e.id, input.event⟩

variable (services) in
/-- **The deliveries of a job**: one for each verified channel its rule
asks for and, where it asks for webhooks, one for each subscribed
endpoint. -/
def required (input : DeliveryInput) : List DeliveryKey :=
  match input.rule.channels with
  | none => []
  | some requested =>
    ((services.requestedChannels input.rule requested).map fun c =>
        ⟨.channel c.id, input.event⟩) ++
      if requested.contains (.channel .webhook) then services.endpointKeys input else []

/-- **Success means delivered**: the next step, where it meets a
condition, lets no job return with a delivery that is neither delivered
nor out of tries. -/
def ReturnsDelivered (services : DeliveryServices)
    (C : Workers DeliveryTables DeliveryAttempt DeliveryInput →
      WorkerLabel DeliveryCall DeliveryInput Empty → Prop)
    (w : Workers DeliveryTables DeliveryAttempt DeliveryInput) : Prop :=
  ∀ l w', C w l → services.machine.step w l = some w' → ∀ id input,
    w.progress id ≠ .returned input → w'.progress id = .returned input →
      ∀ k ∈ services.required input, w'.shared.Done k

/-- A claim is answered with nothing over a delivery in `sent` that is not
stale and has tries left. -/
def passesOver (w : Workers DeliveryTables DeliveryAttempt DeliveryInput) :
    WorkerLabel DeliveryCall DeliveryInput Empty → Bool
  | .call id (.claim now _) .returned =>
    match w.progress id with
    | .running a =>
      match a.phase with
      | .claim d _ => (w.shared.find d.key).any fun r =>
          r.status = .sent && !r.stale now && r.retryCount < MAX_DELIVERY_TRIES
      | _ => false
    | _ => false
  | _ => false

/-- A failure is stored over a delivered delivery that has tries left. -/
def undoes (w : Workers DeliveryTables DeliveryAttempt DeliveryInput) :
    WorkerLabel DeliveryCall DeliveryInput Empty → Bool
  | .call id (.storeFailed _) answer =>
    match w.progress id with
    | .running a =>
      match a.phase with
      | .storeFailed d _ _ => answer ≠ .failed && (w.shared.find d.key).any fun r =>
          r.status = .delivered && r.retryCount < MAX_DELIVERY_TRIES
      | _ => false
    | _ => false
  | _ => false

/-! ## The invariant -/

variable (services) in
/-- What a job has still to come to. -/
def upcoming (a : DeliveryAttempt) : List DeliveryKey :=
  (match a.phase with
    | .selectChannels => services.required ⟨a.event, a.rule⟩
    | .insertPending d rest | .claim d rest | .startSend d rest _ | .send d rest
    | .storeDelivered d rest | .storeFailed d rest _ => d.key :: rest.map (·.key)
    | .selectEndpoints => services.endpointKeys ⟨a.event, a.rule⟩) ++
    if a.webhooks then services.endpointKeys ⟨a.event, a.rule⟩ else []

/-- The delivery a job is at, once its row is stored. -/
def current : DeliveryPhase → Option DeliveryKey
  | .claim d _ | .startSend d _ _ | .send d _ | .storeDelivered d _ | .storeFailed d _ _ =>
    some d.key
  | _ => none

variable (services) in
/-- A job without failures has all its deliveries done or still to come;
one that has returned has them done. -/
def Pursues (t : DeliveryTables) : Progress DeliveryAttempt DeliveryInput → Prop
  | .running a => (∀ k, current a.phase = some k → (t.find k).isSome) ∧
      (a.failures = [] → ∀ k ∈ services.required ⟨a.event, a.rule⟩,
        t.Done k ∨ k ∈ services.upcoming a)
  | .returned input => ∀ k ∈ services.required input, t.Done k
  | _ => True

theorem Pursues.keeps (h : services.Pursues t n) (hkeeps : Keeps t t') : services.Pursues t' n := by
  cases n with
  | running a =>
    refine ⟨fun k hk => hkeeps.stored k (h.1 k hk), fun hfailures k hk => ?_⟩
    exact (h.2 hfailures k hk).imp_left (hkeeps.done k)
  | returned input => exact fun k hk => hkeeps.done k (h k hk)
  | _ => trivial

/-- **From the end of a delivery on**, a job has the rest to come. -/
theorem pursues_proceed {rest : List PlannedDelivery}
    (h : a.failures = [] → ∀ k ∈ services.required ⟨a.event, a.rule⟩, t.Done k ∨
      k ∈ rest.map (·.key) ++ if a.webhooks then services.endpointKeys ⟨a.event, a.rule⟩ else []) :
    services.Pursues t (proceed a rest) := by
  cases rest with
  | cons d rest => exact ⟨fun k hk => absurd hk (by simp [current]), h⟩
  | nil =>
    rw [proceed]
    split
    · rename_i hwebhooks
      refine ⟨fun k hk => absurd hk (by simp [current]), fun hfailures k hk => ?_⟩
      simpa [upcoming, hwebhooks] using h hfailures k hk
    · rename_i hwebhooks
      split
      · rename_i hfailures
        intro k hk
        simpa [hwebhooks] using h hfailures k hk
      · trivial

/-! ## What an await leaves -/

/-- A failure is not stored over a delivery that is to stay done. -/
def Spares (t : DeliveryTables) (a : DeliveryAttempt) : Prop :=
  ∀ d rest code, a.phase = .storeFailed d rest code → ∀ r, t.find d.key = some r →
    r.status = .delivered → MAX_DELIVERY_TRIES ≤ r.retryCount

/-- A claim answered with nothing is over a delivery that is done. -/
def Settles (t : DeliveryTables) (a : DeliveryAttempt) (now : ℕ) : Prop :=
  ∀ d rest, a.phase = .claim d rest → ∀ r, t.find d.key = some r →
    r.status = .sent → r.stale now = false → MAX_DELIVERY_TRIES ≤ r.retryCount

theorem Effect.keeps {k : DeliveryCall} (h : services.Effect t a k t' n)
    (hspares : ∀ now, k = .storeFailed now → Spares t a) : Keeps t t' := by
  cases h with
  | inserted => exact keeps_insertPending
  | claimed => exact keeps_claim
  | started => exact ⟨fun _ h => h, fun _ h => h⟩
  | delivered => exact keeps_storeDelivered
  | failureStored d rest code now hphase => exact keeps_storeFailed (hspares now rfl d rest code hphase)
  | _ => exact .refl t

/-- Within one delivery a job has the same to come. -/
theorem Pursues.within {p : DeliveryPhase} (h : services.Pursues t (.running a))
    (hkeeps : Keeps t t') (hstored : ∀ k, current p = some k → (t'.find k).isSome)
    (hsame : services.upcoming { a with phase := p } = services.upcoming a) :
    services.Pursues t' (.running { a with phase := p }) := by
  refine ⟨hstored, fun hfailures k hk => ?_⟩
  rw [hsame]
  exact (h.2 hfailures k hk).imp_left (hkeeps.done k)

/-- Past a delivery that is done, a job has the rest to come. -/
theorem pursues_proceed_of_done {d : PlannedDelivery} {rest : List PlannedDelivery}
    (h : a.failures = [] → ∀ k ∈ services.required ⟨a.event, a.rule⟩, t.Done k ∨
      k ∈ d.key :: rest.map (·.key) ++
        if a.webhooks then services.endpointKeys ⟨a.event, a.rule⟩ else [])
    (hdone : t.Done d.key) : services.Pursues t (proceed a rest) := by
  refine pursues_proceed fun hfailures k hk => ?_
  rcases h hfailures k hk with hd | hcoming
  · exact Or.inl hd
  · rw [List.cons_append, List.mem_cons] at hcoming
    rcases hcoming with rfl | hrest
    · exact Or.inl hdone
    · exact Or.inr hrest

/-- **An await keeps a job in pursuit** of its deliveries, when no claim
passes over one that is not done. -/
theorem Effect.pursues {k : DeliveryCall} (h : services.Effect t a k t' n) (hkeeps : Keeps t t')
    (hpursues : services.Pursues t (.running a))
    (hsettles : ∀ now written, k = .claim now written → Settles t a now) :
    services.Pursues t' n := by
  have hstored : ∀ k, current a.phase = some k → (t'.find k).isSome := fun k hk =>
    hkeeps.stored k (hpursues.1 k hk)
  -- what was done is done, and what was to come is for the new phase to say
  have hcoming : a.failures = [] → ∀ k ∈ services.required ⟨a.event, a.rule⟩,
      t'.Done k ∨ k ∈ services.upcoming a := fun hfailures k hk =>
    (hpursues.2 hfailures k hk).imp_left (hkeeps.done k)
  cases h with
  | malformed => trivial
  | channels requested hphase hrule =>
    refine pursues_proceed fun _ k hk => Or.inr ?_
    simpa [required, hrule, plannedChannels, Function.comp_def] using hk
  | inserted d rest now hphase =>
    refine hpursues.within hkeeps (fun k hk => ?_) (by simp [upcoming, hphase])
    obtain rfl : d.key = k := by simpa [current] using hk
    rw [find_insertPending]
    simp
  | claimed d rest now written r hphase hfind hclaimable =>
    refine hpursues.within hkeeps (fun k hk => ?_) (by simp [upcoming, hphase])
    obtain rfl : d.key = k := by simpa [current] using hk
    rw [find_claim hfind hclaimable]
    rfl
  | passed d rest now written hphase hnone =>
    rw [upcoming, hphase] at hcoming
    refine pursues_proceed_of_done hcoming ?_
    obtain ⟨r, hr⟩ := Option.isSome_iff_exists.mp (hstored d.key (by rw [hphase]; rfl))
    refine ⟨r, hr, ?_⟩
    -- the row is stored and not claimable: delivered, out of tries, or in `sent`
    have hclaim := hnone r hr
    simp only [Delivery.claimable, Bool.and_eq_false_iff, Bool.or_eq_false_iff,
      decide_eq_false_iff_not, not_lt] at hclaim
    rcases hclaim with hused | ⟨⟨hpending, hfailed⟩, hstale⟩
    · exact Or.inr hused
    · cases hstatus : r.status with
      | pending => exact absurd hstatus hpending
      | failed => exact absurd hstatus hfailed
      | delivered => exact Or.inl rfl
      | sent => exact Or.inr (hsettles now written rfl d rest hphase r hr hstatus hstale)
  | refused d rest attempt code hphase | started d rest attempt hphase
  | succeeded d rest hphase | failed d rest code hphase =>
    refine hpursues.within hkeeps (fun k hk => hstored k ?_) (by simp [upcoming, hphase])
    rw [hphase]
    exact hk
  | delivered d rest now hphase =>
    rw [upcoming, hphase] at hcoming
    exact pursues_proceed_of_done hcoming
      (done_storeDelivered (hpursues.1 d.key (by rw [hphase]; rfl)))
  | failureStored d rest code now hphase =>
    exact pursues_proceed fun hfailures => absurd hfailures (by simp)
  | endpoints hphase =>
    refine pursues_proceed fun hfailures k hk => ?_
    simpa [upcoming, hphase, plannedWebhooks, endpointKeys, Function.comp_def] using
      hcoming hfailures k hk

/-! ## Over a run -/

variable (services) in
/-- Every job is in pursuit of its deliveries. -/
def DeliveryInvariant : Workers DeliveryTables DeliveryAttempt DeliveryInput → Prop :=
  Workers.Keeps (fun _ => True) services.Pursues fun _ _ => True

/-- One job moved on. -/
theorem DeliveryInvariant.put (h : services.DeliveryInvariant w) {id : ℕ} (hkeeps : Keeps w.shared t)
    (hn : services.Pursues t n) : services.DeliveryInvariant (w.put id t n) :=
  Workers.Keeps.put h trivial hn fun id' _ => ⟨(h.each id').keeps hkeeps, trivial, trivial⟩

theorem spares_of_undoes {id now : ℕ} {answer : Answer} (hrun : w.progress id = .running a)
    (hanswer : answer ≠ .failed) (h : undoes w (.call id (.storeFailed now) answer) = false) :
    Spares w.shared a := by
  intro d rest code hphase r hr hdelivered
  simp only [undoes, hrun, hphase, hr, Option.any_some, hdelivered] at h
  simpa [hanswer] using h

theorem settles_of_passesOver {id now written : ℕ} (hrun : w.progress id = .running a)
    (h : passesOver w (.call id (.claim now written) .returned) = false) :
    Settles w.shared a now := by
  intro d rest hphase r hr hsent hstale
  simp only [passesOver, hrun, hphase, hr, Option.any_some, hsent, hstale] at h
  simpa using h

/-- A throw leaves a job that fails, or one that has failed. -/
theorem pursues_thrown (h : services.Pursues t (.running a)) (hkeeps : Keeps t t') :
    services.Pursues t' (thrown a) := by
  unfold thrown
  split
  · rename_i d rest attempt hphase
    refine h.within hkeeps (fun k hk => hkeeps.stored k (h.1 k ?_)) (by simp [upcoming, hphase])
    rw [hphase]
    exact hk
  · rename_i d rest hphase
    refine h.within hkeeps (fun k hk => hkeeps.stored k (h.1 k ?_)) (by simp [upcoming, hphase])
    rw [hphase]
    exact hk
  · rename_i d rest hphase
    refine h.within hkeeps (fun k hk => hkeeps.stored k (h.1 k ?_)) (by simp [upcoming, hphase])
    rw [hphase]
    exact hk
  · trivial

theorem DeliveryInvariant.step (h : services.DeliveryInvariant w)
    (hpass : passesOver w l = false) (hundo : undoes w l = false)
    (hs : services.procedure.Step w l w') : services.DeliveryInvariant w' := by
  cases hs with
  | @start id input hidle =>
    refine h.put (.refl _) ⟨fun k hk => absurd hk (by simp [procedure, current]), fun _ k hk => ?_⟩
    exact Or.inr (List.mem_append_left _ hk)
  | @returned id k a t n hrun hcall =>
    have heffect := Effect.of_call hcall
    have hkeeps : Keeps w.shared t := heffect.keeps fun now hk =>
      spares_of_undoes hrun (by simp) (hk ▸ hundo)
    exact h.put hkeeps (heffect.pursues hkeeps (hrun ▸ h.each id) fun now written hk =>
      settles_of_passesOver hrun (hk ▸ hpass))
  | @failed id k a t n hrun hcall =>
    exact h.put (.refl _) (pursues_thrown (hrun ▸ h.each id) (.refl _))
  | @unacknowledged id k a t n hrun hcall =>
    have hkeeps : Keeps w.shared t := (Effect.of_call hcall).keeps fun now hk =>
      spares_of_undoes hrun (by simp) (hk ▸ hundo)
    exact h.put hkeeps (pursues_thrown (hrun ▸ h.each id) hkeeps)
  | crash hrun => exact h.put (.refl _) trivial
  | @env e t henv => exact e.elim

/-- **A job that returns has delivered**, in every run in which no claim
passes over a delivery in `sent` and no failure undoes one delivered. -/
theorem returnsDelivered_of_reaches
    (h : services.machine.Reaches (fun w l => passesOver w l = false ∧ undoes w l = false) w) :
    services.ReturnsDelivered (fun w l => passesOver w l = false ∧ undoes w l = false) w := by
  have hinv : services.DeliveryInvariant w := by
    refine Procedure.invariant_of_reaches h (fun w hw hidle => ?_) fun w l w' hI hC hs =>
      hI.step hC.1 hC.2 hs
    refine ⟨trivial, fun id => ?_, fun _ _ _ => trivial⟩
    rw [hidle id]
    trivial
  intro l w' hC hs id input _ hreturned
  have hpursues := (hinv.step hC.1 hC.2 (.of_step hs)).each id
  rw [hreturned] at hpursues
  exact hpursues

/-! ## A sample alert -/

/-- One user with a verified address and an endpoint. -/
def sampleServices : DeliveryServices where
  channels := [⟨1, 7, .email, true⟩]
  endpoints := [⟨2, 7, true, some ["alert.triggered"]⟩]
  email := true
  telegram := false
  push := false
  webhook := true

/-- Rules of theirs, for mail alone and for both. -/
def mailRule : RuleDelivery := ⟨7, some [.channel .email]⟩

def sampleRule : RuleDelivery := ⟨7, some [.channel .email, .channel .webhook]⟩

def sampleStart : Workers DeliveryTables DeliveryAttempt DeliveryInput :=
  ⟨noDeliveries, fun _ => .idle⟩

/-- A job up to the claim of its first delivery. -/
def claimLabels (id now : ℕ) (rule : RuleDelivery) :
    List (WorkerLabel DeliveryCall DeliveryInput Empty) :=
  [.start id ⟨1, rule⟩, .call id .selectChannels .returned,
    .call id (.insertPending now) .returned, .call id (.claim now now) .returned]

/-- A delivery from its claim on. -/
def sendLabels (id now : ℕ) : List (WorkerLabel DeliveryCall DeliveryInput Empty) :=
  [.call id .startSend .returned, .call id (.send none) .returned,
    .call id (.storeDelivered now) .returned]

/-- A job whose mail and webhook are both delivered. -/
def deliveredLabels : List (WorkerLabel DeliveryCall DeliveryInput Empty) :=
  claimLabels 0 0 sampleRule ++ sendLabels 0 1 ++
    [.call 0 .selectEndpoints .returned, .call 0 (.insertPending 2) .returned,
      .call 0 (.claim 2 2) .returned, .call 0 .startSend .returned, .call 0 (.send none) .returned]

theorem returnsDelivered_sample : ∃ w,
    sampleServices.machine.exec sampleStart deliveredLabels = some w ∧
      sampleServices.ReturnsDelivered (fun w l => passesOver w l = false ∧ undoes w l = false) w ∧
        (sampleServices.machine.step w (.call 0 (.storeDelivered 3) .returned)).isSome := by
  have hrun : (sampleServices.machine.exec sampleStart deliveredLabels).map (fun w =>
      (sampleServices.machine.step w (.call 0 (.storeDelivered 3) .returned)).isSome) =
        some true := by decide +kernel
  obtain ⟨w, hexec, hnext⟩ := Option.map_eq_some_iff.mp hrun
  have hmeets : sampleServices.machine.Meets
      (fun w l => passesOver w l = false ∧ undoes w l = false) sampleStart deliveredLabels := by
    decide +kernel
  exact ⟨w, hexec, returnsDelivered_of_reaches
    (Machine.Reaches.exec (.init ⟨rfl, fun _ => rfl⟩) hmeets hexec), hnext⟩

/-- A worker that dies after its claim, and the job again a minute later,
up to its own. -/
def redeliveredLabels : List (WorkerLabel DeliveryCall DeliveryInput Empty) :=
  claimLabels 0 0 mailRule ++ .crash 0 :: (claimLabels 1 60000 mailRule).dropLast

/-- **The job redelivered within five minutes** returns, and nothing has
been sent. -/
theorem not_returnsDelivered : ¬∀ (services : DeliveryServices)
    (w : Workers DeliveryTables DeliveryAttempt DeliveryInput), services.machine.Reachable w →
      services.ReturnsDelivered (fun _ _ => True) w := by
  intro h
  have hrun : (sampleServices.machine.exec sampleStart redeliveredLabels).map (fun w =>
      (decide (w.progress 1 = .returned ⟨1, mailRule⟩),
        (sampleServices.machine.step w (.call 1 (.claim 60000 60000) .returned)).map fun w' =>
          (w'.progress 1, w'.shared.find ⟨.channel 1, 1⟩))) =
        some (false, some (.returned ⟨1, mailRule⟩, some ⟨⟨.channel 1, 1⟩, .sent, 1, none, 0⟩)) := by
    decide +kernel
  obtain ⟨w, hexec, hw⟩ := Option.map_eq_some_iff.mp hrun
  obtain ⟨hrunning, hnext⟩ := Prod.mk.inj hw
  obtain ⟨w', hstep, hw'⟩ := Option.map_eq_some_iff.mp hnext
  obtain ⟨hreturned, hfind⟩ := Prod.mk.inj hw'
  obtain ⟨r, hr, hdone⟩ := h sampleServices w (Machine.reachable_of_exec ⟨rfl, fun _ => rfl⟩ hexec) _
    w' trivial hstep 1 ⟨1, mailRule⟩ (of_decide_eq_false hrunning) hreturned ⟨.channel 1, 1⟩
    (by decide)
  obtain rfl := Option.some.inj (hfind.symm.trans hr)
  exact absurd hdone (by decide)

end DeliveryServices

end HoodSentry
