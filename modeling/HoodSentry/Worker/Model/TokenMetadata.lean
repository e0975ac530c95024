import HoodSentry.Common.Machine
import HoodSentry.Common.Text
/-!
# Token metadata

`apps/worker/src/processors/token-metadata.ts` for the jobs of one token: a
job reads the token's row, awaits the chain, and writes the whole row back.
Other jobs run while it waits, so a job is two steps, its read and its end.

What the contract answers at a block is a parameter; which of a job's calls
are answered comes with its end. `finished` is not the program's: it lists
the jobs that have written the row, the last one first, with their supply
reading and the row they wrote.
-/

namespace HoodSentry

namespace TokenMetadata

inductive MetadataStatus
  | complete | incomplete | unavailable
deriving DecidableEq

/-- The token's row; the source's `partial` is `incomplete` here. -/
structure Token where
  name : Option String
  symbol : Option String
  decimals : Option ℕ
  totalSupplyRaw : Option ℕ
  tokenType : Option String
  canonicalAssetKey : Option String
  logoUri : Option String
  metadataStatus : MetadataStatus
  spamStatus : Option String
  firstSeenBlock : Option ℕ
deriving DecidableEq

/-- What the contract's functions return at a block. -/
structure Erc20 where
  name : ℕ → String
  symbol : ℕ → String
  decimals : ℕ → ℤ
  totalSupply : ℕ → ℕ

/-- Which of a job's calls are answered; `bytecode` is whether there is any,
where that call is. -/
structure Reads where
  bytecode : Option Bool
  name : Bool
  symbol : Bool
  decimals : Bool
  totalSupply : Bool
deriving DecidableEq

/-! ## Fields -/

/-- `stringResultSchema`. -/
def parseString (s : String) : Option String :=
  if trim s ≠ "" ∧ (utf16 (trim s)).length ≤ 256 then some (trim s) else none

/-- `decimalsResultSchema`. -/
def parseDecimals (d : ℤ) : Option ℕ := if 0 ≤ d ∧ d ≤ 255 then some d.toNat else none

/-- A field's result: none where the call fails, or its value is refused. -/
def readField {α β : Type} (answered : Bool) (value : α) (parse : α → Option β) : Option β :=
  if answered then parse value else none

def lowestBlock (firstSeenBlock : Option ℕ) (blockNumber : ℕ) : ℕ :=
  match firstSeenBlock with
  | none => blockNumber
  | some first => if first < blockNumber then first else blockNumber

section Job

variable (contract : Erc20) (blockNumber : ℕ) (reads : Reads)

def nameResult : Option String := readField reads.name (contract.name blockNumber) parseString

def symbolResult : Option String :=
  readField reads.symbol (contract.symbol blockNumber) parseString

def decimalsResult : Option ℕ :=
  readField reads.decimals (contract.decimals blockNumber) parseDecimals

/-- The supply's schema asks for a bigint that is not negative. -/
def supplyResult : Option ℕ :=
  readField reads.totalSupply (contract.totalSupply blockNumber) some

/-- The row of a token whose immutable fields are known. -/
def refreshed (existing : Token) : Token :=
  { existing with
    totalSupplyRaw := (supplyResult contract blockNumber reads).or existing.totalSupplyRaw
    tokenType := some (existing.tokenType.getD "erc20")
    metadataStatus :=
      if (supplyResult contract blockNumber reads).isSome then .complete else .incomplete
    spamStatus := some (existing.spamStatus.getD "unknown")
    firstSeenBlock := some (lowestBlock existing.firstSeenBlock blockNumber) }

/-- How complete the four results are. -/
def readStatus : MetadataStatus :=
  let successfulFields := [(nameResult contract blockNumber reads).isSome,
    (symbolResult contract blockNumber reads).isSome,
    (decimalsResult contract blockNumber reads).isSome,
    (supplyResult contract blockNumber reads).isSome].countP id
  if successfulFields = 4 then .complete
  else if successfulFields = 0 then .unavailable else .incomplete

/-- The row of a token read in full. -/
def readInFull (existing : Option Token) : Token where
  name := (nameResult contract blockNumber reads).or (existing.bind (·.name))
  symbol := (symbolResult contract blockNumber reads).or (existing.bind (·.symbol))
  decimals := (decimalsResult contract blockNumber reads).or (existing.bind (·.decimals))
  totalSupplyRaw := (supplyResult contract blockNumber reads).or (existing.bind (·.totalSupplyRaw))
  tokenType := some ((existing.bind (·.tokenType)).getD "erc20")
  canonicalAssetKey := existing.bind (·.canonicalAssetKey)
  logoUri := existing.bind (·.logoUri)
  metadataStatus := readStatus contract blockNumber reads
  spamStatus := some ((existing.bind (·.spamStatus)).getD "unknown")
  firstSeenBlock := some (lowestBlock (existing.bind (·.firstSeenBlock)) blockNumber)

/-- The three fields that do not change are known. -/
def Token.cached (token : Token) : Bool :=
  token.name.isSome && token.symbol.isSome && token.decimals.isSome

/-- **What a job does once it is answered**: it upserts a row, or marks the
row there is as unavailable, or throws. -/
inductive Outcome
  | upsert (token : Token)
  | unavailable
  | thrown
deriving DecidableEq

/-- **`processTokenMetadata`** behind its first read. -/
def outcome (existing : Option Token) : Outcome :=
  match existing with
  | some token =>
    if token.cached then .upsert (refreshed contract blockNumber reads token)
    else
      match reads.bytecode with
      | none => .thrown
      | some false => .unavailable
      | some true => .upsert (readInFull contract blockNumber reads (some token))
  | none =>
    match reads.bytecode with
    | none => .thrown
    | some false => .unavailable
    | some true => .upsert (readInFull contract blockNumber reads none)

end Job

/-! ## The jobs of a token -/

/-- A job at work: its block, and the row it has read. -/
structure Job where
  blockNumber : ℕ
  existing : Option Token
deriving DecidableEq

/-- A job that has written the row. -/
structure Finished where
  blockNumber : ℕ
  supply : Option ℕ
  token : Token
deriving DecidableEq

structure World where
  row : Option Token
  jobs : ℕ → Option Job
  finished : List Finished

/-- A job reads the row, or ends; `stored` is whether its statement is. -/
inductive Label
  | start (id blockNumber : ℕ)
  | finish (id : ℕ) (reads : Reads) (stored : Bool)

def World.start (w : World) (id blockNumber : ℕ) : World :=
  { w with jobs := Function.update w.jobs id (some ⟨blockNumber, w.row⟩) }

def World.finish (w : World) (contract : Erc20) (id : ℕ) (job : Job) (reads : Reads)
    (stored : Bool) : World :=
  let ended : World := { w with jobs := Function.update w.jobs id none }
  if stored then
    match outcome contract job.blockNumber reads job.existing with
    | .upsert token => { ended with
        row := some token
        finished := ⟨job.blockNumber, supplyResult contract job.blockNumber reads, token⟩ ::
          w.finished }
    | .unavailable =>
      if job.existing.isSome then
        { ended with row := w.row.map fun token => { token with metadataStatus := .unavailable } }
      else ended
    | .thrown => ended
  else ended

/-- **The machine of a token's jobs.** -/
def machine (contract : Erc20) : Machine World Label where
  Init w := w = ⟨none, fun _ => none, []⟩
  step w
    | .start id blockNumber =>
      if (w.jobs id).isNone then some (w.start id blockNumber) else none
    | .finish id reads stored => (w.jobs id).map fun job => w.finish contract id job reads stored

end TokenMetadata

end HoodSentry
