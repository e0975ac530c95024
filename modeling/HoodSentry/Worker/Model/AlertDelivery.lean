import HoodSentry.Common.Table
import HoodSentry.Common.Workers
/-!
# Alert delivery

`AlertDeliveryService.deliver` cut at its awaits. Notification deliveries
and webhook deliveries have the columns kept here in common, and one
table holds both; a row is never deleted and its key is unique, so its
random id is left out and the key stands for it. What is sent is left out
as well, and so are the columns that are only written.
-/

namespace HoodSentry

/-! ## Deliveries -/

inductive DeliveryStatus
  | pending | sent | failed | delivered
deriving DecidableEq

/-- A notification channel or a webhook endpoint, by its id. -/
inductive DeliveryTarget
  | channel (id : ℕ)
  | endpoint (id : ℕ)
deriving DecidableEq

/-- Deliveries are unique on channel and event; a webhook's idempotency
key is made of its endpoint and event. -/
structure DeliveryKey where
  target : DeliveryTarget
  event : ℕ
deriving DecidableEq

/-- A row of `notification_deliveries` or `webhook_deliveries`. -/
structure Delivery where
  key : DeliveryKey
  status : DeliveryStatus
  retryCount : ℕ
  errorMessage : Option String
  updatedAt : ℕ
deriving DecidableEq

/-- How many times a delivery is tried. -/
def MAX_DELIVERY_TRIES : ℕ := 10

/-- After how many milliseconds a delivery in `sent` is stale. -/
def STALE_AFTER_MS : ℕ := 5 * 60 * 1000

/-- A delivery in `sent` for longer than a sender is waited for. -/
def Delivery.stale (now : ℕ) (r : Delivery) : Bool :=
  r.status = .sent && r.updatedAt + STALE_AFTER_MS < now

/-- The condition of the claiming `UPDATE`. -/
def Delivery.claimable (now : ℕ) (r : Delivery) : Bool :=
  r.retryCount < MAX_DELIVERY_TRIES && (r.status = .pending || r.status = .failed || r.stale now)

/-- The deliveries, and the sends started on them, each with the try it
was. -/
structure DeliveryTables where
  deliveries : Table Delivery.key
  sends : List (DeliveryKey × ℕ)

namespace DeliveryTables

def insertPending (t : DeliveryTables) (key : DeliveryKey) (now : ℕ) : DeliveryTables :=
  { t with deliveries := t.deliveries.insertNew ⟨key, .pending, 0, none, now⟩ }

/-- The delivery stored under a key. -/
def find (t : DeliveryTables) (key : DeliveryKey) : Option Delivery :=
  t.deliveries.find key

/-- An `UPDATE` of one delivery. -/
def update (t : DeliveryTables) (key : DeliveryKey) (p : Delivery → Bool)
    (f : Delivery → Delivery) (hf : ∀ r, (f r).key = r.key) : DeliveryTables :=
  { t with deliveries := t.deliveries.updateWhere (fun r => r.key = key && p r) f hf }

/-- The claiming `UPDATE`, with the clock as it is read for the condition
and for the row. -/
def claim (t : DeliveryTables) (key : DeliveryKey) (now written : ℕ) : DeliveryTables :=
  t.update key (Delivery.claimable now)
    (fun r => { r with status := .sent, retryCount := r.retryCount + 1, updatedAt := written })
    fun _ => rfl

/-- The result of a send, written back by the row's id alone. -/
def storeDelivered (t : DeliveryTables) (key : DeliveryKey) (now : ℕ) : DeliveryTables :=
  t.update key (fun _ => true)
    (fun r => { r with status := .delivered, errorMessage := none, updatedAt := now }) fun _ => rfl

/-- `failWebhook`, and the `UPDATE` in the `catch` of `deliverChannel`. -/
def storeFailed (t : DeliveryTables) (key : DeliveryKey) (code : String) (now : ℕ) :
    DeliveryTables :=
  t.update key (fun _ => true)
    (fun r => { r with status := .failed, errorMessage := some code, updatedAt := now })
    fun _ => rfl

end DeliveryTables

/-! ## Who is to be told -/

inductive ChannelType
  | email | telegram | webhook | push
deriving DecidableEq

/-- What a rule may ask for. -/
inductive RequestedChannel
  | inApp | channel (type : ChannelType)
deriving DecidableEq

structure NotificationChannel where
  id : ℕ
  userId : ℕ
  channelType : ChannelType
  verified : Bool
deriving DecidableEq

/-- `events` is `none` where it is not a list of strings. -/
structure WebhookEndpoint where
  id : ℕ
  userId : ℕ
  enabled : Bool
  events : Option (List String)
deriving DecidableEq

/-- A rule, with `none` for `channels` that do not parse. -/
structure RuleDelivery where
  userId : ℕ
  channels : Option (List RequestedChannel)
deriving DecidableEq

/-- The channels and endpoints of all users, and the providers that are
configured. -/
structure DeliveryServices where
  channels : List NotificationChannel
  endpoints : List WebhookEndpoint
  email : Bool
  telegram : Bool
  push : Bool
  webhook : Bool

namespace DeliveryServices

variable (services : DeliveryServices)

/-- The verified channels of a rule's user that the rule asks for. -/
def requestedChannels (rule : RuleDelivery) (requested : List RequestedChannel) :
    List NotificationChannel :=
  services.channels.filter fun c =>
    c.userId = rule.userId && c.verified && requested.contains (.channel c.channelType)

/-- The enabled endpoints of a rule's user that subscribe to alerts. -/
def subscribedEndpoints (rule : RuleDelivery) : List WebhookEndpoint :=
  services.endpoints.filter fun e =>
    e.userId = rule.userId && e.enabled && (e.events.getD []).contains "alert.triggered"

/-- Why a send of a type is refused before its provider is called. -/
def refusal : ChannelType → Option String
  | .email => if services.email then none else some "EMAIL_PROVIDER_NOT_CONFIGURED"
  | .telegram => if services.telegram then none else some "TELEGRAM_PROVIDER_NOT_CONFIGURED"
  | .push => if services.push then none else some "PUSH_PROVIDER_NOT_CONFIGURED"
  | .webhook => some "NOTIFICATION_CHANNEL_UNSUPPORTED"

end DeliveryServices

/-! ## The service -/

/-- One delivery to make: its key, and why its send will be refused. -/
structure PlannedDelivery where
  key : DeliveryKey
  refusal : Option String
deriving DecidableEq

/-- The await a delivery job stands before. `rest` is what follows the
delivery it is at, `try` which try of its row it has claimed. -/
inductive DeliveryPhase
  | selectChannels
  | insertPending (d : PlannedDelivery) (rest : List PlannedDelivery)
  | claim (d : PlannedDelivery) (rest : List PlannedDelivery)
  | startSend (d : PlannedDelivery) (rest : List PlannedDelivery) (attempt : ℕ)
  | send (d : PlannedDelivery) (rest : List PlannedDelivery)
  | storeDelivered (d : PlannedDelivery) (rest : List PlannedDelivery)
  | storeFailed (d : PlannedDelivery) (rest : List PlannedDelivery) (code : String)
  | selectEndpoints
deriving DecidableEq

/-- A delivery job: its event and rule, the failures so far, and whether
its webhooks are still to come. -/
structure DeliveryAttempt where
  event : ℕ
  rule : RuleDelivery
  failures : List String
  webhooks : Bool
  phase : DeliveryPhase
deriving DecidableEq

/-- What an await is answered with. A send answers with the provider's
success or an error code. -/
inductive DeliveryCall
  | selectChannels
  | insertPending (now : ℕ)
  | claim (now written : ℕ)
  | startSend
  | send (error : Option String)
  | storeDelivered (now : ℕ)
  | storeFailed (now : ℕ)
  | selectEndpoints

/-- What `deliver` is called with. -/
structure DeliveryInput where
  event : ℕ
  rule : RuleDelivery
deriving DecidableEq

namespace DeliveryServices

variable (services : DeliveryServices)

/-- From the end of a delivery to the next await, or the end of the job:
it throws when there were failures. -/
def proceed (a : DeliveryAttempt) : List PlannedDelivery → Progress DeliveryAttempt DeliveryInput
  | d :: rest => .running { a with phase := .insertPending d rest }
  | [] =>
    if a.webhooks then .running { a with webhooks := false, phase := .selectEndpoints }
    else if a.failures = [] then .returned ⟨a.event, a.rule⟩
    else .threw

/-- The deliveries of the selected channels, in their order. -/
def plannedChannels (a : DeliveryAttempt) (requested : List RequestedChannel) :
    List PlannedDelivery :=
  (services.requestedChannels a.rule requested).map fun c =>
    ⟨⟨.channel c.id, a.event⟩, services.refusal c.channelType⟩

/-- The deliveries of the subscribed endpoints. -/
def plannedWebhooks (a : DeliveryAttempt) : List PlannedDelivery :=
  (services.subscribedEndpoints a.rule).map fun e =>
    ⟨⟨.endpoint e.id, a.event⟩,
      if services.webhook then none else some "WEBHOOK_PROVIDER_NOT_CONFIGURED"⟩

/-- **One await of `deliver`**: its effect, and where it leads. -/
def call (t : DeliveryTables) (a : DeliveryAttempt) :
    DeliveryCall → Option (DeliveryTables × Progress DeliveryAttempt DeliveryInput)
  | .selectChannels =>
    match a.phase with
    | .selectChannels =>
      -- `requestedChannelsSchema.parse` throws before the select
      match a.rule.channels with
      | none => some (t, .threw)
      | some requested =>
        some (t, proceed { a with webhooks := requested.contains (.channel .webhook) }
          (services.plannedChannels a requested))
    | _ => none
  | .insertPending now =>
    match a.phase with
    | .insertPending d rest =>
      some (t.insertPending d.key now, .running { a with phase := .claim d rest })
    | _ => none
  | .claim now written =>
    match a.phase with
    | .claim d rest =>
      match (t.find d.key).filter (Delivery.claimable now) with
      | some r => some (t.claim d.key now written,
          .running { a with phase := .startSend d rest (r.retryCount + 1) })
      | none => some (t, proceed a rest)
    | _ => none
  | .startSend =>
    match a.phase with
    | .startSend d rest attempt =>
      match d.refusal with
      | some code => some (t, .running { a with phase := .storeFailed d rest code })
      | none => some ({ t with sends := (d.key, attempt) :: t.sends },
          .running { a with phase := .send d rest })
    | _ => none
  | .send error =>
    match a.phase with
    | .send d rest =>
      match error with
      | none => some (t, .running { a with phase := .storeDelivered d rest })
      | some code => some (t, .running { a with phase := .storeFailed d rest code })
    | _ => none
  | .storeDelivered now =>
    match a.phase with
    | .storeDelivered d rest => some (t.storeDelivered d.key now, proceed a rest)
    | _ => none
  | .storeFailed now =>
    match a.phase with
    | .storeFailed d rest code =>
      some (t.storeFailed d.key code now,
        proceed { a with failures := a.failures ++ [code] } rest)
    | _ => none
  | .selectEndpoints =>
    match a.phase with
    | .selectEndpoints => some (t, proceed a (services.plannedWebhooks a))
    | _ => none

/-- Where a throw leads: a send, and the write of its success, are tried
with a `catch` that stores the failure. -/
def thrown (a : DeliveryAttempt) : Progress DeliveryAttempt DeliveryInput :=
  match a.phase with
  | .startSend d rest _ | .send d rest | .storeDelivered d rest =>
    .running { a with phase := .storeFailed d rest "DELIVERY_FAILED" }
  | _ => .threw

/-- **The delivery jobs**, any number of them at a time. -/
def procedure : Procedure DeliveryTables DeliveryAttempt DeliveryCall DeliveryInput DeliveryInput
    Empty where
  start input := ⟨input.event, input.rule, [], false, .selectChannels⟩
  call := services.call
  thrown := thrown
  env _ e := e.elim

/-- No delivery, and nothing sent. -/
def noDeliveries : DeliveryTables := ⟨∅, []⟩

def machine : Machine (Workers DeliveryTables DeliveryAttempt DeliveryInput)
    (WorkerLabel DeliveryCall DeliveryInput Empty) :=
  services.procedure.machine (· = noDeliveries)

end DeliveryServices

end HoodSentry
