import HoodSentry.Risk.Model.Solidity
/-!
# Which contracts an analysis takes in

`contractClosure` looks names up in a map, which has one declaration of each.
It takes in the declarations it should, each once, exactly when no name its
main contract leads to is declared more than once.
-/

namespace HoodSentry

variable {ast : SoliditySourceAst} {main name : String} {c d : SolidityContractAst}

/-! ## The visit -/

/-- One step of `visit` as the source takes it: a name already selected or not
declared is passed over; else its contract is selected, and each name it
inherits is visited in turn. -/
theorem visit_new {selected : List SolidityContractAst} (hnew : name ∉ selected.map (·.name))
    (h : lastOf (·.name) ast.contracts name = some c) :
    search (·.name) (·.inherits) ast.contracts [name] selected =
      c.inherits.foldl
        (fun selected inherited => search (·.name) (·.inherits) ast.contracts [inherited] selected)
        (selected ++ [c]) :=
  search_singleton_of_new hnew h

/-! ## Inheritance -/

/-- A declaration of the one name inherits the other. -/
def SoliditySourceAst.Inherits (ast : SoliditySourceAst) (name base : String) : Prop :=
  ∃ c ∈ ast.contracts, c.name = name ∧ base ∈ c.inherits

/-- **Reachable over `is` lists**, of every declaration on the way. -/
def SoliditySourceAst.Reachable (ast : SoliditySourceAst) (main name : String) : Prop :=
  Relation.ReflTransGen ast.Inherits main name

/-- **The closure covers what is inherited**: each declaration of a reachable
name is there as often as it was parsed, and nothing else is. -/
structure SoliditySourceAst.Covers (ast : SoliditySourceAst) (main : String) : Prop where
  complete : ∀ c : SolidityContractAst, ast.Reachable main c.name →
    (contractClosure ast (some main)).count c = ast.contracts.count c
  sound : ∀ c ∈ contractClosure ast (some main), ast.Reachable main c.name

/-- The declarations of a name. -/
def SoliditySourceAst.declarations (ast : SoliditySourceAst) (name : String) :
    List SolidityContractAst :=
  ast.contracts.filter fun c => c.name = name

/-- **Declared once**, if at all: every name the main contract leads to. -/
def SoliditySourceAst.DeclaredOnce (ast : SoliditySourceAst) (main : String) : Prop :=
  ∀ name, ast.Reachable main name → (ast.declarations name).length ≤ 1

theorem inherits_of_leads {base : String}
    (h : Leads (·.name) (·.inherits) ast.contracts name base) : ast.Inherits name base := by
  obtain ⟨c, hlast, hbase⟩ := h
  exact ⟨c, mem_of_lastOf hlast, key_of_lastOf hlast, hbase⟩

/-- Where a name has one declaration, the map has it. -/
theorem lastOf_of_once (h : (ast.declarations c.name).length ≤ 1) (hc : c ∈ ast.contracts) :
    lastOf (·.name) ast.contracts c.name = some c := by
  obtain ⟨d, hd⟩ := Option.isSome_iff_exists.mp (@isSome_lastOf _ _ _ (·.name) ast.contracts c hc)
  have hin : ∀ e ∈ ast.contracts, e.name = c.name → e ∈ ast.declarations c.name := fun e he hname =>
    List.mem_filter.mpr ⟨he, decide_eq_true hname⟩
  have hdc : d = c := by
    have hlen : (ast.declarations c.name).length = 1 :=
      Nat.le_antisymm h (List.length_pos_of_mem (hin c hc rfl))
    obtain ⟨e, he⟩ := List.length_eq_one_iff.mp hlen
    have hd' := hin d (mem_of_lastOf hd) (key_of_lastOf hd)
    have hc' := hin c hc rfl
    rw [he, List.mem_singleton] at hd' hc'
    rw [hd', hc']
  rw [hd, hdc]

/-- So the closure goes where the `is` lists lead. -/
theorem leads_of_reachable (honce : ast.DeclaredOnce main) (h : ast.Reachable main name) :
    Relation.ReflTransGen (Leads (·.name) (·.inherits) ast.contracts) main name := by
  induction h with
  | refl => exact .refl
  | tail hpath hstep ih =>
    obtain ⟨c, hc, rfl, hbase⟩ := hstep
    exact ih.tail ⟨c, lastOf_of_once (honce c.name hpath) hc, hbase⟩

/-- Nothing else is taken in, on any sources. -/
theorem reachable_of_mem_contractClosure (h : c ∈ contractClosure ast (some main)) :
    c ∈ ast.contracts ∧ ast.Reachable main c.name := by
  obtain ⟨hlast, hpath⟩ := mem_search_singleton.mp h
  exact ⟨mem_of_lastOf hlast, Relation.ReflTransGen.mono (fun _ _ => inherits_of_leads) _ _ hpath⟩

/-- Each name is taken in once. -/
theorem nodup_contractClosure : ((contractClosure ast (some main)).map (·.name)).Nodup :=
  nodup_search List.nodup_nil

theorem length_filter_name_le_one {l : List SolidityContractAst} (h : (l.map (·.name)).Nodup) :
    (l.filter fun c => c.name = name).length ≤ 1 := by
  have hsub : ((l.filter fun c => c.name = name).map (·.name)).Nodup :=
    h.sublist (List.filter_sublist.map _)
  rw [List.eq_replicate_of_mem (a := name) (l := (l.filter _).map _) (by
    intro b hb
    obtain ⟨c, hc, rfl⟩ := List.mem_map.mp hb
    exact of_decide_eq_true (List.mem_filter.mp hc).2), List.nodup_replicate,
    List.length_map] at hsub
  exact hsub

/-- **The closure covers all inherited code exactly when every reachable name
is declared once.** -/
theorem covers_iff_declaredOnce (ast : SoliditySourceAst) (main : String) :
    ast.Covers main ↔ ast.DeclaredOnce main := by
  constructor
  · intro hcovers name hname
    have hperm : (ast.declarations name).Perm
        ((contractClosure ast (some main)).filter fun c => c.name = name) := by
      rw [List.perm_iff_count]
      intro c
      by_cases hc : c.name = name
      · have hall : ∀ l : List SolidityContractAst,
            (l.filter fun c => c.name = name).count c = l.count c :=
          fun l => List.count_filter (by simpa using hc)
        rw [SoliditySourceAst.declarations, hall, hall, hcovers.complete c (hc ▸ hname)]
      · have hout : ∀ l : List SolidityContractAst, (l.filter fun c => c.name = name).count c = 0 :=
          fun l => List.count_eq_zero.mpr fun hmem =>
            hc (of_decide_eq_true (List.mem_filter.mp hmem).2)
        rw [SoliditySourceAst.declarations, hout, hout]
    rw [hperm.length_eq]
    exact length_filter_name_le_one nodup_contractClosure
  · intro honce
    refine ⟨fun c hreach => ?_, fun c hc => (reachable_of_mem_contractClosure hc).2⟩
    have hnodup : (contractClosure ast (some main)).Nodup := nodup_contractClosure.of_map _
    by_cases hc : c ∈ ast.contracts
    · have hin : c ∈ contractClosure ast (some main) :=
        mem_search_singleton.mpr
          ⟨lastOf_of_once (honce c.name hreach) hc, leads_of_reachable honce hreach⟩
      have hle : ast.contracts.count c ≤ 1 := by
        have hfilter : (ast.declarations c.name).count c = ast.contracts.count c :=
          List.count_filter (by simp)
        rw [← hfilter]
        exact Nat.le_trans List.count_le_length (honce c.name hreach)
      rw [List.count_eq_one_of_mem hnodup hin]
      exact Nat.le_antisymm (List.count_pos_iff.mpr hc) hle
    · rw [List.count_eq_zero.mpr hc, List.count_eq_zero]
      exact fun hin => hc (reachable_of_mem_contractClosure hin).1

/-- A contract without members. -/
def emptyContract (name path : String) (inherits : List String) : SolidityContractAst where
  name := name
  kind := .contract
  abstract := false
  inherits := inherits
  stateVariables := []
  modifiers := []
  functions := []
  sourcePath := path

/-- A token whose base is declared in two files. -/
def twoBases : SoliditySourceAst where
  contracts := [emptyContract "Base" "first.sol" [], emptyContract "Base" "second.sol" [],
    emptyContract "Token" "token.sol" ["Base"]]
  parseWarnings := []

/-- One of the two is left out. -/
theorem not_covers_twoBases : ¬ twoBases.Covers "Token" := by
  intro hcovers
  have hbase : twoBases.Reachable "Token" "Base" :=
    .single ⟨emptyContract "Token" "token.sol" ["Base"], by decide, rfl, List.mem_singleton_self _⟩
  have hin : ∀ path, emptyContract "Base" path [] ∈ twoBases.contracts →
      emptyContract "Base" path [] ∈ contractClosure twoBases (some "Token") := by
    intro path hmem
    rw [← List.count_pos_iff, hcovers.complete _ hbase]
    exact List.count_pos_iff.mpr hmem
  have hsame := List.inj_on_of_nodup_map nodup_contractClosure (hin "first.sol" (by decide))
    (hin "second.sol" (by decide)) rfl
  exact absurd (congrArg SolidityContractAst.sourcePath hsame) (by decide)

end HoodSentry
