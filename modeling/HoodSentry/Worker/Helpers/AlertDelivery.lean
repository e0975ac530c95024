import HoodSentry.Worker.Model.AlertDelivery
/-!
# What the awaits of a delivery do

One constructor for each thing an await of `deliver` can do, and what
each of the statements leaves of a delivery.
-/

namespace HoodSentry

namespace DeliveryTables

variable {t : DeliveryTables} {k key : DeliveryKey}

/-! ## The statements -/

theorem find_update {p : Delivery → Bool} {f : Delivery → Delivery}
    {hf : ∀ r, (f r).key = r.key} :
    (t.update key p f hf).find k =
      (t.find k).map fun r => if k = key && p r then f r else r := by
  rw [find, update, Table.find_updateWhere]
  refine Option.map_congr fun r hr => ?_
  rw [(Table.find_eq_some.mp hr).2]

/-- Another delivery is left alone. -/
theorem find_update_of_ne {p : Delivery → Bool} {f : Delivery → Delivery}
    {hf : ∀ r, (f r).key = r.key} (h : k ≠ key) : (t.update key p f hf).find k = t.find k := by
  rw [find_update]
  simp [h]

theorem find_insertPending {now : ℕ} : (t.insertPending key now).find k =
    (t.find k).or (if key = k then some ⟨key, .pending, 0, none, now⟩ else none) := by
  rw [find, insertPending, Table.find_insertNew]
  rfl

/-- A stored delivery stays as it is. -/
theorem find_insertPending_of_some {now : ℕ} {r : Delivery} (h : t.find k = some r) :
    (t.insertPending key now).find k = some r := by
  rw [find_insertPending, h, Option.some_or]

theorem find_claim {now written : ℕ} {r : Delivery} (h : t.find key = some r)
    (hr : r.claimable now = true) : (t.claim key now written).find key =
      some { r with status := .sent, retryCount := r.retryCount + 1, updatedAt := written } := by
  rw [claim, find_update, h]
  simp [hr]

theorem find_storeDelivered {now : ℕ} {r : Delivery} (h : t.find key = some r) :
    (t.storeDelivered key now).find key =
      some { r with status := .delivered, errorMessage := none, updatedAt := now } := by
  rw [storeDelivered, find_update, h]
  simp

end DeliveryTables

namespace DeliveryServices

variable (services : DeliveryServices)

/-! ## The awaits -/

/-- **What an await does**, one constructor for each. -/
inductive Effect (t : DeliveryTables) (a : DeliveryAttempt) :
    DeliveryCall → DeliveryTables → Progress DeliveryAttempt DeliveryInput → Prop
  | malformed (h : a.phase = .selectChannels) (hrule : a.rule.channels = none) :
      Effect t a .selectChannels t .threw
  | channels (requested : List RequestedChannel) (h : a.phase = .selectChannels)
      (hrule : a.rule.channels = some requested) :
      Effect t a .selectChannels t
        (proceed { a with webhooks := requested.contains (.channel .webhook) }
          (services.plannedChannels a requested))
  | inserted (d : PlannedDelivery) (rest : List PlannedDelivery) (now : ℕ)
      (h : a.phase = .insertPending d rest) :
      Effect t a (.insertPending now) (t.insertPending d.key now)
        (.running { a with phase := .claim d rest })
  | claimed (d : PlannedDelivery) (rest : List PlannedDelivery) (now written : ℕ) (r : Delivery)
      (h : a.phase = .claim d rest) (hfind : t.find d.key = some r)
      (hclaimable : r.claimable now = true) :
      Effect t a (.claim now written) (t.claim d.key now written)
        (.running { a with phase := .startSend d rest (r.retryCount + 1) })
  | passed (d : PlannedDelivery) (rest : List PlannedDelivery) (now written : ℕ)
      (h : a.phase = .claim d rest)
      (hnone : ∀ r, t.find d.key = some r → r.claimable now = false) :
      Effect t a (.claim now written) t (proceed a rest)
  | refused (d : PlannedDelivery) (rest : List PlannedDelivery) (attempt : ℕ) (code : String)
      (h : a.phase = .startSend d rest attempt) :
      Effect t a .startSend t (.running { a with phase := .storeFailed d rest code })
  | started (d : PlannedDelivery) (rest : List PlannedDelivery) (attempt : ℕ)
      (h : a.phase = .startSend d rest attempt) :
      Effect t a .startSend { t with sends := (d.key, attempt) :: t.sends }
        (.running { a with phase := .send d rest })
  | succeeded (d : PlannedDelivery) (rest : List PlannedDelivery) (h : a.phase = .send d rest) :
      Effect t a (.send none) t (.running { a with phase := .storeDelivered d rest })
  | failed (d : PlannedDelivery) (rest : List PlannedDelivery) (code : String)
      (h : a.phase = .send d rest) :
      Effect t a (.send (some code)) t (.running { a with phase := .storeFailed d rest code })
  | delivered (d : PlannedDelivery) (rest : List PlannedDelivery) (now : ℕ)
      (h : a.phase = .storeDelivered d rest) :
      Effect t a (.storeDelivered now) (t.storeDelivered d.key now) (proceed a rest)
  | failureStored (d : PlannedDelivery) (rest : List PlannedDelivery) (code : String) (now : ℕ)
      (h : a.phase = .storeFailed d rest code) :
      Effect t a (.storeFailed now) (t.storeFailed d.key code now)
        (proceed { a with failures := a.failures ++ [code] } rest)
  | endpoints (h : a.phase = .selectEndpoints) :
      Effect t a .selectEndpoints t (proceed a (services.plannedWebhooks a))

variable {services} {t t' : DeliveryTables} {a : DeliveryAttempt} {k : DeliveryCall}
variable {n : Progress DeliveryAttempt DeliveryInput}

/-- An await answered does one of them. -/
theorem Effect.of_call (h : services.call t a k = some (t', n)) : services.Effect t a k t' n := by
  cases k with
  | selectChannels =>
    simp only [call] at h
    split at h
    · rename_i hphase
      split at h
      · rename_i hrule
        obtain ⟨rfl, rfl⟩ := Prod.mk.inj (Option.some.inj h)
        exact .malformed hphase hrule
      · rename_i requested hrule
        obtain ⟨rfl, rfl⟩ := Prod.mk.inj (Option.some.inj h)
        exact .channels requested hphase hrule
    · exact absurd h (by simp)
  | insertPending now =>
    simp only [call] at h
    split at h
    · rename_i d rest hphase
      obtain ⟨rfl, rfl⟩ := Prod.mk.inj (Option.some.inj h)
      exact .inserted d rest now hphase
    · exact absurd h (by simp)
  | claim now written =>
    simp only [call] at h
    split at h
    · rename_i d rest hphase
      split at h
      · rename_i r hr
        obtain ⟨rfl, rfl⟩ := Prod.mk.inj (Option.some.inj h)
        obtain ⟨hfind, hclaimable⟩ := Option.filter_eq_some_iff.mp hr
        exact .claimed d rest now written r hphase hfind hclaimable
      · rename_i hnone
        obtain ⟨rfl, rfl⟩ := Prod.mk.inj (Option.some.inj h)
        refine .passed d rest now written hphase fun r hr => ?_
        rw [hr] at hnone
        simpa [Option.filter] using hnone
    · exact absurd h (by simp)
  | startSend =>
    simp only [call] at h
    split at h
    · rename_i d rest attempt hphase
      split at h
      · rename_i code _
        obtain ⟨rfl, rfl⟩ := Prod.mk.inj (Option.some.inj h)
        exact .refused d rest attempt code hphase
      · obtain ⟨rfl, rfl⟩ := Prod.mk.inj (Option.some.inj h)
        exact .started d rest attempt hphase
    · exact absurd h (by simp)
  | send error =>
    simp only [call] at h
    split at h
    · rename_i d rest hphase
      cases error with
      | none =>
        obtain ⟨rfl, rfl⟩ := Prod.mk.inj (Option.some.inj h)
        exact .succeeded d rest hphase
      | some code =>
        obtain ⟨rfl, rfl⟩ := Prod.mk.inj (Option.some.inj h)
        exact .failed d rest code hphase
    · exact absurd h (by simp)
  | storeDelivered now =>
    simp only [call] at h
    split at h
    · rename_i d rest hphase
      obtain ⟨rfl, rfl⟩ := Prod.mk.inj (Option.some.inj h)
      exact .delivered d rest now hphase
    · exact absurd h (by simp)
  | storeFailed now =>
    simp only [call] at h
    split at h
    · rename_i d rest code hphase
      obtain ⟨rfl, rfl⟩ := Prod.mk.inj (Option.some.inj h)
      exact .failureStored d rest code now hphase
    · exact absurd h (by simp)
  | selectEndpoints =>
    simp only [call] at h
    split at h
    · rename_i hphase
      obtain ⟨rfl, rfl⟩ := Prod.mk.inj (Option.some.inj h)
      exact .endpoints hphase
    · exact absurd h (by simp)

end DeliveryServices

end HoodSentry
