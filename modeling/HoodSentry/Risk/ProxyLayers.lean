import HoodSentry.Common.Search
import HoodSentry.Risk.Model.ProxyLayers
/-!
# The chain of proxy layers

The loop over the layers is a walk along their implementations: it visits no
address twice, whatever the pointers of the chain are, and ends early only
where the claim of a layer to be a proxy ends, or at an address it has seen.
-/

namespace HoodSentry

namespace ProxyAnalysis

variable {viem : ProxyLibrary} {client : ProxyAnalysisClient} {input : ProxyAnalysisInput}

/-! ## Where layers end -/

/-- The layers an input allows. -/
def maxDepth (input : ProxyAnalysisInput) : ℕ := input.maxNestedDepth.getD 4

/-- An address is that of a proxy: its own layer would have a kind. -/
def IsProxy (viem : ProxyLibrary) (client : ProxyAnalysisClient) (blockNumber : ℕ)
    (address : String) : Prop :=
  ∀ depth, (buildLayer viem client address blockNumber depth none).kind ≠ ProxyKind.none

/-- **Where layers may end early**: at one without implementation, at one of
no kind, at an implementation that is no proxy, or at an address there is a
layer of. -/
inductive Ends (viem : ProxyLibrary) (client : ProxyAnalysisClient) (blockNumber : ℕ)
    (layers : List ProxyLayer) (last : ProxyLayer) : Prop
  | noImplementation (h : last.implementationAddress = none)
  | noKind (h : last.kind = ProxyKind.none)
  | noProxy {implementation : String} (h : last.implementationAddress = some implementation)
    (hproxy : ¬IsProxy viem client blockNumber implementation)
  | repeated {implementation : String} (h : last.implementationAddress = some implementation)
    (hmem : lowerAddress implementation ∈ layers.map fun layer => lowerAddress layer.proxyAddress)

/-- **A finite chain of layers.** -/
structure FiniteChain (viem : ProxyLibrary) (client : ProxyAnalysisClient)
    (input : ProxyAnalysisInput) (layers : List ProxyLayer) : Prop where
  bounded : layers.length ≤ maxDepth input
  first : ∀ layer ∈ layers.head?, layer.proxyAddress = input.address
  distinct : (layers.map fun layer => lowerAddress layer.proxyAddress).Nodup
  linked : layers.IsChain fun layer next => layer.implementationAddress = some next.proxyAddress
  ends : layers.length < maxDepth input →
    ∃ last, layers.getLast? = some last ∧ Ends viem client input.sourceBlock layers last

/-! ## The loop is a walk -/

/-- The layer of an address at a depth. -/
def layerAt (viem : ProxyLibrary) (client : ProxyAnalysisClient) (input : ProxyAnalysisInput)
    (depth : ℕ) (address : String) : ProxyLayer :=
  buildLayer viem client address input.sourceBlock depth
    (if depth = 0 then input.cloneFactoryAddress else none)

/-- Where a layer's pointer leads: to its implementation, if that is a proxy. -/
def following (viem : ProxyLibrary) (client : ProxyAnalysisClient) (input : ProxyAnalysisInput)
    (layer : ProxyLayer) : Option String :=
  if layer.kind = ProxyKind.none then none
  else layer.implementationAddress.filter fun implementation =>
    (buildLayer viem client implementation input.sourceBlock (layer.depth + 1) none).kind ≠
      ProxyKind.none

/-- **The loop of `readLayers`** is a walk along the layers' pointers. -/
theorem readLayersFrom_eq_walk (left depth : ℕ) (current : String) (visited : List String) :
    readLayersFrom viem client input left depth current visited =
      walk lowerAddress (layerAt viem client input) (following viem client input) left depth current
        visited := by
  induction left generalizing depth current visited with
  | zero => rfl
  | succ left ih =>
    by_cases hseen : lowerAddress current ∈ visited
    · rw [walk_of_mem hseen]
      exact if_pos hseen
    · have hfollowing : following viem client input (layerAt viem client input depth current) =
          if (layerAt viem client input depth current).kind = ProxyKind.none then none
          else (layerAt viem client input depth current).implementationAddress.filter
            fun implementation =>
              (buildLayer viem client implementation input.sourceBlock (depth + 1) none).kind ≠
                ProxyKind.none := rfl
      cases himplementation : (layerAt viem client input depth current).implementationAddress with
      | none =>
        rw [himplementation, Option.filter_none, ite_self] at hfollowing
        rw [walk_of_none hseen hfollowing]
        unfold layerAt at himplementation ⊢
        rw [readLayersFrom]
        dsimp only
        rw [if_neg hseen, himplementation]
      | some implementation =>
        rw [himplementation] at hfollowing
        have hloop : readLayersFrom viem client input (left + 1) depth current visited =
            if (layerAt viem client input depth current).kind = ProxyKind.none then
              [layerAt viem client input depth current]
            else if (buildLayer viem client implementation input.sourceBlock (depth + 1) none).kind =
                ProxyKind.none then [layerAt viem client input depth current]
            else layerAt viem client input depth current :: readLayersFrom viem client input left
              (depth + 1) implementation (visited ++ [lowerAddress current]) := by
          unfold layerAt at himplementation ⊢
          rw [readLayersFrom]
          dsimp only
          rw [if_neg hseen, himplementation]
        rw [hloop]
        by_cases hkind : (layerAt viem client input depth current).kind = ProxyKind.none
        · rw [if_pos hkind] at hfollowing ⊢
          exact (walk_of_none hseen hfollowing).symm
        · rw [if_neg hkind] at hfollowing ⊢
          by_cases hnext : (buildLayer viem client implementation input.sourceBlock (depth + 1)
              none).kind = ProxyKind.none
          · rw [Option.filter_some_neg (by simpa using hnext)] at hfollowing
            rw [if_pos hnext]
            exact (walk_of_none hseen hfollowing).symm
          · rw [Option.filter_some_pos (by simpa using hnext)] at hfollowing
            rw [if_neg hnext, walk_of_some hseen hfollowing, ih]

theorem proxyAddress_layerAt (depth : ℕ) (address : String) :
    (layerAt viem client input depth address).proxyAddress = address := rfl

/-- A pointer that leads on is the implementation of a layer. -/
theorem implementation_of_following {layer : ProxyLayer} {implementation : String}
    (h : following viem client input layer = some implementation) :
    layer.implementationAddress = some implementation := by
  unfold following at h
  split at h
  · cases h
  · exact (Option.filter_eq_some_iff.mp h).1

/-- What a pointer that leads nowhere says of its layer. -/
theorem ends_of_following {layers : List ProxyLayer} {last : ProxyLayer}
    (h : ∀ implementation, following viem client input last = some implementation →
      lowerAddress implementation ∈ layers.map fun layer => lowerAddress layer.proxyAddress) :
    Ends viem client input.sourceBlock layers last := by
  by_cases hkind : last.kind = ProxyKind.none
  · exact .noKind hkind
  · cases himplementation : last.implementationAddress with
    | none => exact .noImplementation himplementation
    | some implementation =>
      by_cases hnext : (buildLayer viem client implementation input.sourceBlock (last.depth + 1)
          none).kind = ProxyKind.none
      · exact .noProxy himplementation fun hproxy => hproxy _ hnext
      · refine .repeated himplementation (h implementation ?_)
        rw [following, if_neg hkind, himplementation]
        exact Option.filter_some_pos (by simpa using hnext)

/-- **The layers are a finite chain**, whatever the chain answers. -/
theorem finiteChain_readLayers (viem : ProxyLibrary) (client : ProxyAnalysisClient)
    (input : ProxyAnalysisInput) :
    FiniteChain viem client input (readLayers viem client input) := by
  rw [readLayers, readLayersFrom_eq_walk]
  refine ⟨length_walk_le, ?_, ?_, ?_, ?_⟩
  · exact fun layer hlayer => owner_head_walk _ proxyAddress_layerAt hlayer
  · simpa using nodup_walk _ proxyAddress_layerAt (List.nodup_nil (α := String))
  · refine (isChain_walk ProxyLayer.proxyAddress proxyAddress_layerAt).imp ?_
    exact fun layer next h => implementation_of_following h
  · intro hlen
    obtain ⟨last, hlast, hstop⟩ := exists_last_walk ProxyLayer.proxyAddress
      proxyAddress_layerAt hlen List.not_mem_nil
    exact ⟨last, hlast, ends_of_following hstop⟩

end ProxyAnalysis

end HoodSentry
