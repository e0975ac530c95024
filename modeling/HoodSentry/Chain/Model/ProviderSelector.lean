import HoodSentry.Chain.Model.CircuitBreaker
/-!
# The client's providers and how one is selected

What `RPCClient` of `packages/chain/src/rpc/rpc-client.ts` keeps of its
providers, and the selection of `provider-selector.ts` over it. The lag that
ranks providers is `block-lag-monitor.ts`'s.
-/

namespace HoodSentry

inductive RPCMethod
  | blockNumber
  | getBlockByNumber
  | getBlockByHash
  | getTransactionByHash
  | getTransactionReceipt
  | getBlockReceipts
  | getLogs
  | getCode
  | getStorageAt
  | call
  | estimateGas
  | gasPrice
  | maxPriorityFeePerGas
  | chainId
  | sendRawTransaction
  | simulateV1
  deriving DecidableEq

structure ProviderConfig where
  url : Url
  role : ProviderRole
  deriving DecidableEq

structure RPCClientConfig where
  chainId : ℕ
  primary : ProviderConfig
  secondary : Option ProviderConfig
  archive : Option ProviderConfig
  circuitBreaker : CircuitBreakerConfig
  /-- `retry.maxAttempts`. -/
  maxAttempts : ℕ

/-- The configured providers, in the order they are initialized. -/
def RPCClientConfig.providers (config : RPCClientConfig) : List ProviderConfig :=
  config.primary :: (config.secondary.toList ++ config.archive.toList)

def maxSafeInteger : ℕ := 2 ^ 53 - 1

structure BlockLagMonitor where
  providerBlocks : Url → Option ℕ
  networkHead : ℕ

namespace BlockLagMonitor

def create : BlockLagMonitor where
  providerBlocks _ := none
  networkHead := 0

def updateProviderBlock (m : BlockLagMonitor) (url : Url) (blockNumber : ℕ) : BlockLagMonitor :=
  { m with providerBlocks := Function.update m.providerBlocks url (some blockNumber) }

def updateNetworkHead (m : BlockLagMonitor) (blockNumber : ℕ) : BlockLagMonitor :=
  if m.networkHead < blockNumber then { m with networkHead := blockNumber } else m

/-- A provider ahead of the head has no lag. -/
def getLag (m : BlockLagMonitor) (url : Url) : ℕ :=
  match m.providerBlocks url with
  | none => maxSafeInteger
  | some providerBlock => m.networkHead - providerBlock

end BlockLagMonitor

structure RPCClient where
  config : RPCClientConfig
  healthTrackers : Url → Option ProviderHealthTracker
  blockLagMonitor : BlockLagMonitor

namespace RPCClient

/-- A url configured twice keeps the later tracker. -/
def initializeProvider (trackers : Url → Option ProviderHealthTracker) (provider : ProviderConfig) :
    Url → Option ProviderHealthTracker :=
  Function.update trackers provider.url (some (.create provider.url provider.role))

def create (config : RPCClientConfig) : RPCClient where
  config := config
  healthTrackers := config.providers.foldl initializeProvider fun _ => none
  blockLagMonitor := .create

variable (c : RPCClient)

/-- A step of one provider's tracker. -/
def modifyTracker (url : Url) (f : ProviderHealthTracker → ProviderHealthTracker) : RPCClient :=
  { c with healthTrackers := Function.update c.healthTrackers url ((c.healthTrackers url).map f) }

section ModifyTracker

variable {c} {url other : Url} {f : ProviderHealthTracker → ProviderHealthTracker}

@[simp] theorem config_modifyTracker : (c.modifyTracker url f).config = c.config := rfl

theorem modifyTracker_self :
    (c.modifyTracker url f).healthTrackers url = (c.healthTrackers url).map f :=
  Function.update_self ..

theorem modifyTracker_of_ne (h : other ≠ url) :
    (c.modifyTracker url f).healthTrackers other = c.healthTrackers other :=
  Function.update_of_ne h ..

end ModifyTracker

def isHealthy (url : Url) : Bool := (c.healthTrackers url).any ProviderHealthTracker.isHealthy

/-! ## The selector -/

def addProviderIfEligible (candidates : List ProviderHealth) (providerUrl : Url)
    (requireArchive : Bool) : List ProviderHealth :=
  match c.healthTrackers providerUrl with
  | none => candidates
  | some tracker =>
    if tracker.isHealthy ∧ (!requireArchive ∨ tracker.health.archiveCapable = some true) then
      candidates ++ [tracker.health]
    else candidates

def addArchiveProviderIfEligible (candidates : List ProviderHealth) (archiveUrl : Url) :
    List ProviderHealth :=
  c.addProviderIfEligible candidates archiveUrl true

/-- The archive provider stands in only where one is required. -/
def getCandidateProviders (requireArchive : Bool) : List ProviderHealth :=
  let candidates := c.addProviderIfEligible [] c.config.primary.url requireArchive
  let candidates :=
    match c.config.secondary with
    | none => candidates
    | some secondary => c.addProviderIfEligible candidates secondary.url requireArchive
  match c.config.archive with
  | none => candidates
  | some archive =>
    if requireArchive then c.addArchiveProviderIfEligible candidates archive.url else candidates

/-- Below zero where the first is preferred: by lag, latency, error rate,
failures in a row, and last by the primary's role. -/
def compareProviders (a b : ProviderHealth) : ℚ :=
  let lagA := c.blockLagMonitor.getLag a.providerUrl
  let lagB := c.blockLagMonitor.getLag b.providerUrl
  let latencyA := a.latencyMs.getD maxSafeInteger
  let latencyB := b.latencyMs.getD maxSafeInteger
  if lagA ≠ lagB then (lagA : ℚ) - lagB
  else if latencyA ≠ latencyB then (latencyA : ℚ) - latencyB
  else if a.errorRate ≠ b.errorRate then a.errorRate - b.errorRate
  else if a.consecutiveFailures ≠ b.consecutiveFailures then
    (a.consecutiveFailures : ℚ) - b.consecutiveFailures
  else if a.role = .primary ∧ b.role ≠ .primary then -1
  else if b.role = .primary ∧ a.role ≠ .primary then 1
  else 0

/-- The first of the candidates in the order of preference, which keeps the
order of those it does not tell apart. -/
def preferred (candidates : List ProviderHealth) : Option Url :=
  ((candidates.insertionSort fun a b => c.compareProviders a b ≤ 0).head?).map
    ProviderHealth.providerUrl

def selectProvider (requireArchive : Bool) : Option Url :=
  c.preferred (c.getCandidateProviders requireArchive)

/-- Archive capability counts only where an archive provider is configured. -/
def isHistoricalMethod (method : RPCMethod) : Bool :=
  c.config.archive.isSome &&
    decide (method ∈ [RPCMethod.getBlockByNumber, .getBlockByHash, .getTransactionByHash,
      .getTransactionReceipt, .getBlockReceipts, .getLogs, .getCode, .call])

def selectProviderForMethod (method : RPCMethod) : Option Url :=
  c.selectProvider (c.isHistoricalMethod method)

/-- The providers a request may fall back to: those not excluded, the
archive provider with them whatever the method. -/
def fallbackCandidates (excludeUrls : List Url) : List ProviderHealth :=
  let candidates :=
    (c.getCandidateProviders false).filter fun p => decide (p.providerUrl ∉ excludeUrls)
  match c.config.archive with
  | none => candidates
  | some archive =>
    match c.healthTrackers archive.url with
    | none => candidates
    | some archiveTracker =>
      if archive.url ∉ excludeUrls ∧ archiveTracker.isHealthy ∧
          ¬ candidates.any fun p => decide (p.providerUrl = archive.url) then
        candidates ++ [archiveTracker.health]
      else candidates

def selectFallbackProvider (excludeUrls : List Url) : Option Url :=
  c.preferred (c.fallbackCandidates excludeUrls)

end RPCClient

end HoodSentry
