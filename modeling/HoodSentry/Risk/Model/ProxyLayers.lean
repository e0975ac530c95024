import HoodSentry.Risk.Model.Selectors
/-!
# Proxy layers

The reading of proxy layers in `packages/risk-engine/src/proxy-analysis.ts`:
a layer is built from an address's code, three storage words and a few calls,
and the loop follows its implementation while that is a proxy itself. The
chain is a client of any answers; what `viem` computes is a parameter.
-/

namespace HoodSentry

inductive ProxyKind
  | transparent | uups | beacon | minimalClone | diamond | unknownDelegatecall | none | unknown
deriving DecidableEq

structure StorageSlotEvidence where
  slot : HexText
  rawValue : HexText
  resolvedAddress : Option String

structure ProxyLayer where
  depth : ℕ
  proxyAddress : String
  kind : ProxyKind
  runtimeCodeHash : HexText
  implementationAddress : Option String
  implementationCodeHash : Option HexText
  beaconAddress : Option String
  adminAddress : Option String
  implementationSlot : StorageSlotEvidence
  adminSlot : StorageSlotEvidence
  beaconSlot : StorageSlotEvidence
  minimalCloneFactoryAddress : Option String
  indicators : List String

/-- What `readLayers` reads of a `ProxyAnalysisInput`. -/
structure ProxyAnalysisInput where
  address : String
  sourceBlock : ℕ
  maxNestedDepth : Option ℕ
  cloneFactoryAddress : Option String

/-- **The chain** at every block; a call that is reverted throws. -/
structure ProxyAnalysisClient where
  getCode : String → ℕ → HexText
  getStorageAt : String → HexText → ℕ → HexText
  call : String → HexText → ℕ → Option HexText

/-- The functions called or looked for in a code. -/
inductive ProxyFunction
  | implementation | proxiableUUID | facetAddresses | diamondCut
deriving DecidableEq

/-- **What `viem` computes**; decoding throws on data of another type. -/
structure ProxyLibrary where
  keccak256 : HexText → HexText
  stringToHex : String → HexText
  toHex32 : ℤ → HexText
  isAddress : String → Bool
  getAddress : String → String
  encodeFunctionData : ProxyFunction → HexText
  decodeAddress : HexText → Option String
  decodeBytes32 : HexText → Option HexText

namespace ProxyAnalysis

/-- `address.toLowerCase()`. -/
def lowerAddress (address : String) : String := String.ofList (lowerDigits address.toList)

def zeroAddress : String := "0x0000000000000000000000000000000000000000"

/-- The first four bytes of a call's data. -/
theorem isHex_take (data : HexText) (n : ℕ) : ∀ c ∈ data.digits.take n, isHexDigit c = true :=
  fun c hc => data.isHex c (List.mem_of_mem_take hc)

def selectorOf (data : HexText) : HexText := ⟨data.digits.take 8, isHex_take data 8⟩

/-- `/^0x0*$/.test(code)`, which `0x` also passes. -/
def isEmptyCode (code : HexText) : Bool := code.digits = [] || code.digits.all (· = '0')

/-- A `Hex` as it is written. -/
def textOf (value : HexText) : List Char := '0' :: 'x' :: value.digits

/-- Text that matches `before ([0-9a-f]{40}) after`: what the group is. -/
def groupOf (before after text : List Char) : Option (List Char) :=
  if text.take before.length = before ∧ text.drop (before.length + 40) = after ∧
      text.length = before.length + 40 + after.length then
    some (slice text before.length (before.length + 40))
  else none

def clonePatterns : List (List Char × List Char) :=
  [("363d3d373d3d3d363d73".toList, "5af43d82803e903d91602b57fd5bf3".toList),
    ("3d3d3d3d363d3d37363d73".toList, "5af43d3d93803e602a57fd5bf3".toList)]

/-- `code` has an opcode. -/
def containsOpcode (code : HexText) (opcode : ℕ) : Bool :=
  (decodeOpcodes code).any fun item => item.value = opcode

variable (viem : ProxyLibrary) (client : ProxyAnalysisClient)

def eip1967Slot (label : String) : HexText :=
  viem.toHex32 (((parseHex (viem.keccak256 (viem.stringToHex label)).digits).getD 0 : ℤ) - 1)

def EIP1967_IMPLEMENTATION_SLOT : HexText := eip1967Slot viem "eip1967.proxy.implementation"

def EIP1967_ADMIN_SLOT : HexText := eip1967Slot viem "eip1967.proxy.admin"

def EIP1967_BEACON_SLOT : HexText := eip1967Slot viem "eip1967.proxy.beacon"

def storageAddress (value : HexText) : Option String :=
  if isEmptyCode value then none
  else
    let text := textOf value
    let candidate := "0x" ++ String.ofList (text.drop (text.length - 40))
    if !viem.isAddress candidate || lowerAddress candidate = zeroAddress then none
    else some (viem.getAddress candidate)

def slotEvidence (slot rawValue : HexText) : StorageSlotEvidence :=
  ⟨slot, rawValue, storageAddress viem rawValue⟩

/-- A call that is reverted, or answers nothing, is none. -/
def safeCall (address : String) (data : HexText) (blockNumber : ℕ) : Option HexText :=
  (client.call address data blockNumber).filter fun result => result.digits ≠ []

def minimalCloneImplementation (code : HexText) : Option String :=
  clonePatterns.findSome? fun pattern =>
    (groupOf pattern.1 pattern.2 (lowerDigits code.digits)).map fun address =>
      viem.getAddress ("0x" ++ String.ofList address)

def isUupsImplementation (implementation : String) (blockNumber : ℕ) : Bool :=
  match safeCall client implementation (viem.encodeFunctionData .proxiableUUID) blockNumber with
  | none => false
  | some result => viem.decodeBytes32 result = some (EIP1967_IMPLEMENTATION_SLOT viem)

def readBeaconImplementation (beacon : String) (blockNumber : ℕ) : Option String :=
  (safeCall client beacon (viem.encodeFunctionData .implementation) blockNumber).bind
    viem.decodeAddress

def looksLikeDiamond (address : String) (code : HexText) (blockNumber : ℕ) : Bool :=
  let facetSelector := selectorOf (viem.encodeFunctionData .facetAddresses)
  let diamondCutSelector := selectorOf (viem.encodeFunctionData .diamondCut)
  if containsSelector code facetSelector && containsSelector code diamondCutSelector then true
  else (safeCall client address (viem.encodeFunctionData .facetAddresses) blockNumber).isSome

/-- The proxy families in their order: the kind, and what indicates it. -/
def detect (address : String) (code : HexText) (blockNumber : ℕ)
    (implementation admin beacon cloneImplementation : Option String) :
    ProxyKind × List String :=
  if beacon.isSome then (.beacon, ["EIP-1967 beacon slot is populated"])
  else if cloneImplementation.isSome then
    (.minimalClone, ["Runtime bytecode matches a supported EIP-1167 clone template"])
  else if implementation.isSome && admin.isSome then
    (.transparent, ["EIP-1967 implementation and admin slots are populated"])
  else if implementation.any fun implementation =>
      isUupsImplementation viem client implementation blockNumber then
    (.uups, ["Implementation proxiableUUID resolves to the EIP-1967 implementation slot"])
  else if looksLikeDiamond viem client address code blockNumber then
    (.diamond, ["Diamond loupe and cut surfaces are present"])
  else if implementation.isSome then
    (.unknown, ["Implementation slot is populated without a recognized proxy control pattern"])
  else if containsOpcode code 0xf4 then
    (.unknownDelegatecall,
      ["Runtime bytecode executes DELEGATECALL without a recognized proxy pattern"])
  else (.none, [])

/-- The indicator of the factory a clone came from. -/
def factoryIndicators (cloneFactoryAddress : Option String) (blockNumber : ℕ) : List String :=
  match cloneFactoryAddress with
  | none => []
  | some factory =>
    let factoryCode := client.getCode factory blockNumber
    let cloneSelector := selectorOf (viem.keccak256 (viem.stringToHex "clone(address)"))
    let deterministicSelector :=
      selectorOf (viem.keccak256 (viem.stringToHex "cloneDeterministic(address,bytes32)"))
    if containsSelector factoryCode cloneSelector ||
        containsSelector factoryCode deterministicSelector then
      ["Creation factory exposes a common clone deployment selector"]
    else []

def buildLayer (address : String) (blockNumber depth : ℕ) (cloneFactoryAddress : Option String) :
    ProxyLayer :=
  let code := client.getCode address blockNumber
  let implementationSlot := slotEvidence viem (EIP1967_IMPLEMENTATION_SLOT viem)
    (client.getStorageAt address (EIP1967_IMPLEMENTATION_SLOT viem) blockNumber)
  let adminSlot := slotEvidence viem (EIP1967_ADMIN_SLOT viem)
    (client.getStorageAt address (EIP1967_ADMIN_SLOT viem) blockNumber)
  let beaconSlot := slotEvidence viem (EIP1967_BEACON_SLOT viem)
    (client.getStorageAt address (EIP1967_BEACON_SLOT viem) blockNumber)
  let cloneImplementation := minimalCloneImplementation viem code
  let detected := detect viem client address code blockNumber implementationSlot.resolvedAddress
    adminSlot.resolvedAddress beaconSlot.resolvedAddress cloneImplementation
  let implementationAddress :=
    match beaconSlot.resolvedAddress with
    | some beacon => readBeaconImplementation viem client beacon blockNumber
    | none => implementationSlot.resolvedAddress.or cloneImplementation
  { depth := depth
    proxyAddress := address
    kind := detected.1
    runtimeCodeHash := viem.keccak256 code
    implementationAddress := implementationAddress
    implementationCodeHash := implementationAddress.bind fun implementation =>
      let implementationCode := client.getCode implementation blockNumber
      if isEmptyCode implementationCode then none else some (viem.keccak256 implementationCode)
    beaconAddress := beaconSlot.resolvedAddress
    adminAddress := adminSlot.resolvedAddress
    implementationSlot := implementationSlot
    adminSlot := adminSlot
    beaconSlot := beaconSlot
    minimalCloneFactoryAddress := cloneFactoryAddress
    indicators := detected.2 ++ factoryIndicators viem client cloneFactoryAddress blockNumber }

/-- The loop of `readLayers`, from a depth on. -/
def readLayersFrom (input : ProxyAnalysisInput) :
    ℕ → ℕ → String → List String → List ProxyLayer
  | 0, _, _, _ => []
  | left + 1, depth, current, visited =>
    let identity := lowerAddress current
    if identity ∈ visited then []
    else
      let layer := buildLayer viem client current input.sourceBlock depth
        (if depth = 0 then input.cloneFactoryAddress else none)
      match layer.implementationAddress with
      | none => [layer]
      | some implementation =>
        if layer.kind = .none then [layer]
        else
          let next := buildLayer viem client implementation input.sourceBlock (depth + 1) none
          if next.kind = .none then [layer]
          else layer :: readLayersFrom input left (depth + 1) implementation (visited ++ [identity])

def readLayers (input : ProxyAnalysisInput) : List ProxyLayer :=
  readLayersFrom viem client input (input.maxNestedDepth.getD 4) 0 input.address []

end ProxyAnalysis

end HoodSentry
