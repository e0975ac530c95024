import HoodSentry.Common.Lists
import HoodSentry.Common.Workers
import HoodSentry.Model.Schema
/-!
# API keys

`ApiKeyService`: keys are issued and revoked in single statements, and a
request with a key is counted in the bucket of its minute and in that of
its day. The two counts are conditional upserts in one transaction, so a
call is cut at its statements and one that finds a bucket full rolls back
what it counted before. A statement waits for the transaction that has an
uncommitted row under the same key and then reads what that one
committed.

Hashing is a parameter. An id, a random token and the clock are supplied
with the step that asks for them.
-/

namespace HoodSentry

/-! ## Tokens and scopes -/

inductive ApiKeyScope
  | tokensRead | riskRead | walletsRead | alertsWrite | webhooksWrite | projectsWrite
deriving DecidableEq

def ApiKeyScope.text : ApiKeyScope → String
  | .tokensRead => "tokens:read"
  | .riskRead => "risk:read"
  | .walletsRead => "wallets:read"
  | .alertsWrite => "alerts:write"
  | .webhooksWrite => "webhooks:write"
  | .projectsWrite => "projects:write"

def API_KEY_SCOPES : List ApiKeyScope :=
  [.tokensRead, .riskRead, .walletsRead, .alertsWrite, .webhooksWrite, .projectsWrite]

/-- A presented token. One that does not match the pattern of a token has
no prefix. -/
structure ApiKeyToken where
  keyPrefix : Option String
  secret : String
deriving DecidableEq

def apiKeyPrefix (token : ApiKeyToken) : Option String := token.keyPrefix

/-- `verifyApiKeyToken` over the keyed hash of tokens. -/
def verifyApiKeyToken (hashApiKeyToken : ApiKeyToken → Hash) (token : ApiKeyToken)
    (expectedHash : Hash) : Bool :=
  (apiKeyPrefix token).isSome && hashApiKeyToken token = expectedHash

inductive ApiKeyError
  | unauthorized (message : String)
  | forbidden (message : String)
  | rateLimit (retryAfterSeconds : ℕ)
  | validation
  | failure (message : String)
deriving DecidableEq

def scopesSchema (scopes : List ApiKeyScope) : Except ApiKeyError (List ApiKeyScope) :=
  if scopes = [] ∨ API_KEY_SCOPES.length < scopes.length then .error .validation else .ok scopes

/-! ## The tables -/

structure ApiKeyRow where
  id : ℕ
  userId : ℕ
  keyPrefix : String
  hashedSecret : Hash
  name : String
  scopes : List ApiKeyScope
  quotaPerMinute : Option ℕ
  quotaPerDay : Option ℕ
  lastUsedAt : Option ℕ
  revokedAt : Option ℕ
deriving DecidableEq

inductive UsagePeriod
  | minute | day
deriving DecidableEq

/-- How long a period is, in milliseconds. -/
def UsagePeriod.length : UsagePeriod → ℕ
  | .minute => 60000
  | .day => 86400000

/-- The start of the clock period a moment falls in. -/
def UsagePeriod.bucketStart (period : UsagePeriod) (now : ℕ) : ℕ := now - now % period.length

structure ApiKeyUsageRow where
  apiKeyId : ℕ
  periodKind : UsagePeriod
  bucketStart : ℕ
  requestCount : ℕ
deriving DecidableEq

/-- `api_key_usage_buckets` is keyed by key, period and start. -/
def ApiKeyUsageRow.key (row : ApiKeyUsageRow) : ℕ × UsagePeriod × ℕ :=
  (row.apiKeyId, row.periodKind, row.bucketStart)

structure SecurityEventRow where
  userId : ℕ
  eventType : String
  severity : String
  apiKeyId : ℕ
  keyPrefix : String
  scopes : Option (List ApiKeyScope)
deriving DecidableEq

structure ApiKeyDb where
  keys : Table ApiKeyRow.id
  usage : Table ApiKeyUsageRow.key
  events : List SecurityEventRow

/-- The keys of a user that are not revoked. -/
def ApiKeyDb.activeKeys (db : ApiKeyDb) (userId : ℕ) : List ApiKeyRow :=
  db.keys.rows.filter fun row => row.userId = userId && row.revokedAt = none

/-- The insert of a key; it fails where the id or the hashed secret is in
use. -/
def ApiKeyDb.insertKey (db : ApiKeyDb) (row : ApiKeyRow) : Option ApiKeyDb :=
  if row.id ∈ db.keys.keys ∨ row.hashedSecret ∈ db.keys.rows.map (·.hashedSecret) then none
  else some { db with keys := db.keys.insertNew row }

/-- The row a revocation is for. -/
def ApiKeyDb.revocable (db : ApiKeyDb) (userId id : ℕ) : Option ApiKeyRow :=
  db.keys.rows.find? fun row => row.id = id && row.userId = userId && row.revokedAt = none

/-- The update of a revocation. -/
def ApiKeyDb.revokeKey (db : ApiKeyDb) (userId id now : ℕ) : ApiKeyDb :=
  { db with
    keys := db.keys.updateWhere
      (fun row => row.id = id && row.userId = userId && row.revokedAt = none)
      (fun row => { row with revokedAt := some now }) fun _ => rfl }

/-! ## Issuing and revoking -/

structure IssueInput where
  userId : ℕ
  name : String
  scopes : List ApiKeyScope
  quotaPerMinute : ℕ
  quotaPerDay : ℕ
deriving DecidableEq

inductive ApiKeyRequest
  | issue (input : IssueInput)
  | revoke (userId id : ℕ)
deriving DecidableEq

/-- The statement a request stands before, with what it has read. -/
inductive ApiKeyPhase
  | readActive (input : IssueInput)
  | insertKey (input : IssueInput) (active : ℕ) (scopes : List ApiKeyScope)
  | issueEvent (row : ApiKeyRow) (token : ApiKeyToken)
  | updateKey (userId id : ℕ)
  | revokeEvent (row : ApiKeyRow)
deriving DecidableEq

inductive ApiKeyResult
  | issued (row : ApiKeyRow) (token : ApiKeyToken)
  | revoked (found : Bool)
deriving DecidableEq

/-- What a statement is supplied with. -/
inductive ApiKeySupply
  | nothing
  | random (id : ℕ) (keyPrefix secret : String)
  | clock (now : ℕ)
deriving DecidableEq

section Issue

variable (hashApiKeyToken : ApiKeyToken → Hash)

/-- The row an issued token is stored in. -/
def issuedRow (input : IssueInput) (scopes : List ApiKeyScope) (id : ℕ) (keyPrefix secret : String) :
    ApiKeyRow where
  id := id
  userId := input.userId
  keyPrefix := keyPrefix
  hashedSecret := hashApiKeyToken ⟨some keyPrefix, secret⟩
  name := input.name
  scopes := scopes
  quotaPerMinute := some input.quotaPerMinute
  quotaPerDay := some input.quotaPerDay
  lastUsedAt := none
  revokedAt := none

/-- **`issue` and `revoke`**, a statement at a time. -/
def apiKeyCall (db : ApiKeyDb) :
    ApiKeyPhase → ApiKeySupply → Option (ApiKeyDb × Progress ApiKeyPhase ApiKeyResult)
  | .readActive input, .nothing =>
    let active := db.activeKeys input.userId
    if active.length ≥ 10 then some (db, .threw)
    else
      match scopesSchema input.scopes.eraseDups with
      | .error _ => some (db, .threw)
      | .ok scopes => some (db, .running (.insertKey input active.length scopes))
  | .insertKey input _ scopes, .random id keyPrefix secret =>
    let row := issuedRow hashApiKeyToken input scopes id keyPrefix secret
    match db.insertKey row with
    | none => some (db, .threw)
    | some db' => some (db', .running (.issueEvent row ⟨some keyPrefix, secret⟩))
  | .issueEvent row token, .nothing =>
    some ({ db with events := db.events ++ [⟨row.userId, "api_key_created", "info", row.id,
      row.keyPrefix, some row.scopes⟩] }, .returned (.issued row token))
  | .updateKey userId id, .clock now =>
    match db.revocable userId id with
    | none => some (db, .returned (.revoked false))
    | some row => some (db.revokeKey userId id now, .running (.revokeEvent row))
  | .revokeEvent row, .nothing =>
    some ({ db with events := db.events ++ [⟨row.userId, "api_key_revoked", "info", row.id,
      row.keyPrefix, none⟩] }, .returned (.revoked true))
  | _, _ => none

/-- The service's requests beside each other. -/
def apiKeyProcedure :
    Procedure ApiKeyDb ApiKeyPhase ApiKeySupply ApiKeyResult ApiKeyRequest Empty where
  start
    | .issue input => .readActive input
    | .revoke userId id => .updateKey userId id
  call := apiKeyCall hashApiKeyToken
  thrown _ := .threw
  env _ e := nomatch e

end Issue

/-! ## Authenticating a request -/

/-- A key a request is authorized with. -/
structure AuthorizedKey where
  row : ApiKeyRow
  scopes : List ApiKeyScope
  quotaPerMinute : ℕ
  quotaPerDay : ℕ
deriving DecidableEq

/-- What `authenticate` checks before it counts. -/
def authorizeKey (hashApiKeyToken : ApiKeyToken → Hash) (db : ApiKeyDb) (token : ApiKeyToken)
    (requiredScope : Option ApiKeyScope) : Except ApiKeyError AuthorizedKey :=
  match apiKeyPrefix token with
  | none => .error (.unauthorized "The API key format is invalid")
  | some keyPrefix =>
    match db.keys.rows.find? fun row => row.keyPrefix = keyPrefix && row.revokedAt = none with
    | none => .error (.unauthorized "The API key is invalid or revoked")
    | some row =>
      if !verifyApiKeyToken hashApiKeyToken token row.hashedSecret then
        .error (.unauthorized "The API key is invalid or revoked")
      else (scopesSchema row.scopes).bind fun scopes =>
        match requiredScope.filter (· ∉ scopes) with
        | some missing =>
          .error (.forbidden ("The API key requires the " ++ missing.text ++ " scope"))
        | none =>
          match row.quotaPerMinute, row.quotaPerDay with
          | some quotaPerMinute, some quotaPerDay =>
            .ok ⟨row, scopes, quotaPerMinute, quotaPerDay⟩
          | _, _ => .error (.failure "API_KEY_QUOTA_NOT_CONFIGURED")

def AuthorizedKey.quota (key : AuthorizedKey) : UsagePeriod → ℕ
  | .minute => key.quotaPerMinute
  | .day => key.quotaPerDay

/-- The bucket of a period at a moment. -/
def AuthorizedKey.bucket (key : AuthorizedKey) (period : UsagePeriod) (now : ℕ) :
    ℕ × UsagePeriod × ℕ :=
  (key.row.id, period, period.bucketStart now)

/-- **The conditional upsert of a count**: what it returns, and nothing
where the bucket is full. -/
def countRequest (usage : Table ApiKeyUsageRow.key) (bucket : ℕ × UsagePeriod × ℕ) (quota : ℕ) :
    Option ℕ :=
  match usage.find bucket with
  | none => some 1
  | some row => if row.requestCount < quota then some (row.requestCount + 1) else none

structure ApiKeyPrincipal where
  id : ℕ
  userId : ℕ
  keyPrefix : String
  scopes : List ApiKeyScope
  minuteRemaining : ℕ
  dayRemaining : ℕ
deriving DecidableEq

/-- The statement a call stands before, with the counts its transaction
has not committed; and how it ended. -/
inductive AuthenticatePhase
  | select
  | minute (key : AuthorizedKey) (now : ℕ)
  | day (key : AuthorizedKey) (now : ℕ) (minuteCount : ℕ)
  | touch (key : AuthorizedKey) (now : ℕ) (minuteCount dayCount : ℕ)
  | commit (key : AuthorizedKey) (now : ℕ) (minuteCount dayCount : ℕ)
  | returned (key : AuthorizedKey) (now : ℕ) (principal : ApiKeyPrincipal)
  /-- The transaction committed and the caller was not told. -/
  | lost (key : AuthorizedKey) (now : ℕ)
  | threw (error : ApiKeyError)
deriving DecidableEq

/-- The counts a transaction has written and not committed. -/
def AuthenticatePhase.written : AuthenticatePhase → List ApiKeyUsageRow
  | .day key now minuteCount =>
    [⟨key.row.id, .minute, UsagePeriod.minute.bucketStart now, minuteCount⟩]
  | .touch key now minuteCount dayCount | .commit key now minuteCount dayCount =>
    [⟨key.row.id, .minute, UsagePeriod.minute.bucketStart now, minuteCount⟩,
      ⟨key.row.id, .day, UsagePeriod.day.bucketStart now, dayCount⟩]
  | _ => []

/-- The key whose row a transaction has touched and not committed. -/
def AuthenticatePhase.touched : AuthenticatePhase → Option ℕ
  | .commit key _ _ _ => some key.row.id
  | _ => none

structure AuthenticateCall where
  id : ℕ
  token : ApiKeyToken
  requiredScope : Option ApiKeyScope
  phase : AuthenticatePhase
deriving DecidableEq

/-- The committed tables and the calls made. -/
structure AuthenticateWorld where
  db : ApiKeyDb
  calls : Table AuthenticateCall.id

inductive AuthenticateLabel
  | call (id : ℕ) (token : ApiKeyToken) (requiredScope : Option ApiKeyScope)
  | select (id now : ℕ)
  | minute (id : ℕ)
  | day (id : ℕ)
  | touch (id : ℕ)
  | commit (id : ℕ) (acknowledged : Bool)
  /-- A statement fails or the connection is lost. -/
  | fail (id : ℕ) (message : String)
  | issue (row : ApiKeyRow)
  | revoke (userId id now : ℕ)
deriving DecidableEq

namespace AuthenticateWorld

variable (w : AuthenticateWorld)

/-- Another transaction has an uncommitted count of the bucket. -/
def countWaits (call : AuthenticateCall) (bucket : ℕ × UsagePeriod × ℕ) : Bool :=
  w.calls.rows.any fun other => other.id ≠ call.id && other.phase.written.any (·.key = bucket)

/-- Another transaction has an uncommitted touch of the key. -/
def touchWaits (keyId : ℕ) : Bool :=
  w.calls.rows.any fun other => other.phase.touched = some keyId

/-- The upsert of a count. -/
def upsertUsage (usage : Table ApiKeyUsageRow.key) (row : ApiKeyUsageRow) :
    Table ApiKeyUsageRow.key :=
  usage.upsert row (fun old => { old with requestCount := row.requestCount }) fun _ => rfl

/-- What a transaction leaves. -/
def commitDb (phase : AuthenticatePhase) (keyId now : ℕ) : ApiKeyDb :=
  { w.db with
    usage := phase.written.foldl upsertUsage w.db.usage
    keys := w.db.keys.updateWhere (fun row => row.id = keyId)
      (fun row => { row with lastUsedAt := some now }) fun _ => rfl }

/-- What the service returns for a committed transaction. -/
def principal (key : AuthorizedKey) (minuteCount dayCount : ℕ) : ApiKeyPrincipal where
  id := key.row.id
  userId := key.row.userId
  keyPrefix := key.row.keyPrefix
  scopes := key.scopes
  minuteRemaining := key.quotaPerMinute - minuteCount
  dayRemaining := key.quotaPerDay - dayCount

/-- The call where it stands next. -/
def move (call : AuthenticateCall) (phase : AuthenticatePhase) : AuthenticateWorld :=
  { w with calls := w.calls.put { call with phase := phase } }

/-- **One statement of a call.** -/
def runStatement (hashApiKeyToken : ApiKeyToken → Hash) (call : AuthenticateCall) :
    AuthenticateLabel → Option AuthenticateWorld
  | .select _ now =>
    match call.phase with
    | .select =>
      match authorizeKey hashApiKeyToken w.db call.token call.requiredScope with
      | .error error => some (w.move call (.threw error))
      | .ok key => some (w.move call (.minute key now))
    | _ => none
  | .minute _ =>
    match call.phase with
    | .minute key now =>
      let bucket := key.bucket .minute now
      if w.countWaits call bucket = true then none
      else
        match countRequest w.db.usage bucket key.quotaPerMinute with
        | none => some (w.move call (.threw (.rateLimit 60)))
        | some count => some (w.move call (.day key now count))
    | _ => none
  | .day _ =>
    match call.phase with
    | .day key now minuteCount =>
      let bucket := key.bucket .day now
      if w.countWaits call bucket = true then none
      else
        match countRequest w.db.usage bucket key.quotaPerDay with
        | none => some (w.move call (.threw (.rateLimit 86400)))
        | some count => some (w.move call (.touch key now minuteCount count))
    | _ => none
  | .touch _ =>
    match call.phase with
    | .touch key now minuteCount dayCount =>
      if w.touchWaits key.row.id = true then none
      else some (w.move call (.commit key now minuteCount dayCount))
    | _ => none
  | .commit _ acknowledged =>
    match call.phase with
    | .commit key now minuteCount dayCount =>
      let ended : AuthenticatePhase :=
        if acknowledged then .returned key now (principal key minuteCount dayCount)
        else .lost key now
      some { w.move call ended with db := w.commitDb call.phase key.row.id now }
    | _ => none
  | .fail _ message =>
    match call.phase with
    | .returned .. | .lost .. | .threw _ => none
    | _ => some (w.move call (.threw (.failure message)))
  | _ => none

/-- The call a label is about. -/
def callOf : AuthenticateLabel → Option ℕ
  | .call id _ _ | .select id _ | .minute id | .day id | .touch id | .commit id _ | .fail id _ =>
    some id
  | .issue _ | .revoke .. => none

def step (hashApiKeyToken : ApiKeyToken → Hash) : AuthenticateLabel → Option AuthenticateWorld
  | .call id token requiredScope =>
    if id ∈ w.calls.keys then none
    else some { w with calls := w.calls.insertNew ⟨id, token, requiredScope, .select⟩ }
  | .issue row => (w.db.insertKey row).map fun db => { w with db := db }
  | .revoke userId id now =>
    if w.touchWaits id = true then none
    else some { w with db := w.db.revokeKey userId id now }
  | .select id now => (w.calls.find id).bind (w.runStatement hashApiKeyToken · (.select id now))
  | .minute id => (w.calls.find id).bind (w.runStatement hashApiKeyToken · (.minute id))
  | .day id => (w.calls.find id).bind (w.runStatement hashApiKeyToken · (.day id))
  | .touch id => (w.calls.find id).bind (w.runStatement hashApiKeyToken · (.touch id))
  | .commit id acknowledged =>
    (w.calls.find id).bind (w.runStatement hashApiKeyToken · (.commit id acknowledged))
  | .fail id message =>
    (w.calls.find id).bind (w.runStatement hashApiKeyToken · (.fail id message))

end AuthenticateWorld

/-- **The service's authentications**, over any stored keys and with
nothing counted. -/
def authenticateMachine (hashApiKeyToken : ApiKeyToken → Hash) :
    Machine AuthenticateWorld AuthenticateLabel where
  Init w := w.db.usage = ∅ ∧ w.calls = ∅
  step w := w.step hashApiKeyToken

end HoodSentry
