import HoodSentry.Common.JsonTree
import HoodSentry.Common.Sorting
import Mathlib.Data.List.Lex
import Mathlib.Data.List.Sort
/-!
# Canonical texts

`packages/risk-engine/src/canonical.ts`. A number is finite or not, and what
has no text, a function or a symbol, is known by its `typeof`. The entries of
an object are its own fields, in any order.
-/

namespace HoodSentry

namespace Canonical

inductive Value
  | undefined
  | null
  | boolean (value : Bool)
  | number (value : Option FiniteNumber)
  | string (value : Units)
  | bigint (value : ℤ)
  | array (items : List Value)
  | object (fields : List (Units × Value))
  | other (kind : String)

def Value.isUndefined : Value → Bool
  | .undefined => true
  | _ => false

/-- Entries in the order of their keys. -/
def sortEntries {α : Type} (entries : List (Units × α)) : List (Units × α) :=
  entries.insertionSort fun left right => left.1 ≤ right.1

/-- `JSON.stringify({ $bigint: value.toString() })`. -/
def bigintObject (value : ℤ) : Json := .object [(units "$bigint", .string (intText value))]

/-- `${JSON.stringify(key)}:${text}`. -/
def entryText (key text : Units) : Units := quoted key ++ unit ':' :: text

mutual

def canonicalize : Value → Except String Units
  | .null => .ok (units "null")
  | .string value => .ok (quoted value)
  | .boolean value => .ok (units (if value then "true" else "false"))
  | .number none => .error "Canonical values cannot contain non-finite numbers"
  | .number (some value) => .ok (numberText value)
  | .bigint value => .ok (bigintObject value).render
  | .array items => do
    let texts ← (canonicalizeItems items).mapM id
    return unit '[' :: (joined texts ++ [unit ']'])
  | .object fields => do
    let record := sortEntries (canonicalizeFields fields)
    let texts ← record.mapM fun entry => entry.2.map (entryText entry.1)
    return unit '\x7b' :: (joined texts ++ [unit '\x7d'])
  | .undefined => .error "Unsupported canonical value type: undefined"
  | .other kind => .error ("Unsupported canonical value type: " ++ kind)

def canonicalizeItems : List Value → List (Except String Units)
  | [] => []
  | item :: items => canonicalize item :: canonicalizeItems items

/-- The fields that are not `undefined`, with the outcome for each. -/
def canonicalizeFields : List (Units × Value) → List (Units × Except String Units)
  | [] => []
  | (key, value) :: fields =>
    if value.isUndefined then canonicalizeFields fields
    else (key, canonicalize value) :: canonicalizeFields fields

end

end Canonical

end HoodSentry

/-!
## Which values have one canonical text

The text of a plain value is the text of a tree: its objects lose the fields
that are `undefined` and list the others by key, and a bigint becomes the
object that spells it. No two trees have one text, so two values have one
exactly if they are the same up to the order of fields and undefined ones
after their bigints are spelled out: what collides is a bigint with the object
that spells it, and nothing else.
-/

namespace HoodSentry

namespace Canonical

/-! ## Values -/

/-- What a canonical text is meant for: finite numbers, keys that differ, `undefined` in
fields only. -/
inductive Plain : Value → Prop
  | null : Plain .null
  | boolean {value : Bool} : Plain (.boolean value)
  | number {value : FiniteNumber} : Plain (.number (some value))
  | string {value : Units} : Plain (.string value)
  | bigint {value : ℤ} : Plain (.bigint value)
  | array {items : List Value} : (∀ item ∈ items, Plain item) → Plain (.array items)
  | object {fields : List (Units × Value)} : (fields.map Prod.fst).Nodup →
      (∀ field ∈ fields, field.2 ≠ .undefined → Plain field.2) → Plain (.object fields)

/-- **The same value** up to the order of an object's fields, and fields that are `undefined`. -/
inductive Same : Value → Value → Prop
  | null : Same .null .null
  | boolean {value : Bool} : Same (.boolean value) (.boolean value)
  | number {value : FiniteNumber} : Same (.number (some value)) (.number (some value))
  | string {value : Units} : Same (.string value) (.string value)
  | bigint {value : ℤ} : Same (.bigint value) (.bigint value)
  | array {items others : List Value} : items.length = others.length →
      (∀ (i : ℕ) (item other : Value), items[i]? = some item → others[i]? = some other →
        Same item other) →
      Same (.array items) (.array others)
  | object {fields others : List (Units × Value)} :
      (∀ key, (∃ value, (key, value) ∈ fields ∧ value ≠ .undefined) ↔
        ∃ value, (key, value) ∈ others ∧ value ≠ .undefined) →
      (∀ key value other, (key, value) ∈ fields → value ≠ .undefined → (key, other) ∈ others →
        other ≠ .undefined → Same value other) →
      Same (.object fields) (.object others)

mutual

/-- A value with its bigints spelled out as objects. -/
def spelled : Value → Value
  | .bigint value => .object [(units "$bigint", .string (intText value))]
  | .array items => .array (spelledItems items)
  | .object fields => .object (spelledFields fields)
  | value => value

def spelledItems : List Value → List Value
  | [] => []
  | item :: items => spelled item :: spelledItems items

def spelledFields : List (Units × Value) → List (Units × Value)
  | [] => []
  | (key, value) :: fields => (key, spelled value) :: spelledFields fields

end

mutual

/-- The tree whose text a value has: `null` stands for what has none. -/
def normal : Value → Json
  | .null => .null
  | .boolean value => .boolean value
  | .number (some value) => .number value
  | .string value => .string value
  | .bigint value => bigintObject value
  | .array items => .array (normalItems items)
  | .object fields => .object (sortEntries (normalFields fields))
  | .number none => .null
  | .undefined => .null
  | .other _ => .null

def normalItems : List Value → List Json
  | [] => []
  | item :: items => normal item :: normalItems items

def normalFields : List (Units × Value) → List (Units × Json)
  | [] => []
  | (key, value) :: fields =>
    if value.isUndefined then normalFields fields else (key, normal value) :: normalFields fields

end

/-! ## As lists -/

section Lists

variable {fields : List (Units × Value)} {items : List Value} {value : Value}

theorem isUndefined_eq_false : value.isUndefined = false ↔ value ≠ .undefined := by
  cases value <;> simp [Value.isUndefined]

/-- The fields that are not `undefined`. -/
def entries (fields : List (Units × Value)) : List (Units × Value) :=
  fields.filter fun field => !field.2.isUndefined

theorem mem_entries {field : Units × Value} :
    field ∈ entries fields ↔ field ∈ fields ∧ field.2 ≠ .undefined := by
  rw [entries, List.mem_filter, Bool.not_eq_true', isUndefined_eq_false]

theorem entries_cons {key : Units} : entries ((key, value) :: fields) =
    if value.isUndefined then entries fields else (key, value) :: entries fields := by
  rw [entries, List.filter_cons]
  cases value.isUndefined <;> rfl

theorem canonicalizeItems_eq_map : canonicalizeItems items = items.map canonicalize := by
  induction items with
  | nil => rw [canonicalizeItems, List.map_nil]
  | cons item items ih => rw [canonicalizeItems, ih, List.map_cons]

theorem canonicalizeFields_eq_map : canonicalizeFields fields =
    (entries fields).map fun field => (field.1, canonicalize field.2) := by
  induction fields with
  | nil => rw [canonicalizeFields]; rfl
  | cons field fields ih =>
    obtain ⟨key, value⟩ := field
    rw [canonicalizeFields, ih, entries_cons]
    cases value.isUndefined <;> rfl

theorem normalItems_eq_map : normalItems items = items.map normal := by
  induction items with
  | nil => rw [normalItems, List.map_nil]
  | cons item items ih => rw [normalItems, ih, List.map_cons]

theorem normalFields_eq_map : normalFields fields =
    (entries fields).map fun field => (field.1, normal field.2) := by
  induction fields with
  | nil => rw [normalFields]; rfl
  | cons field fields ih =>
    obtain ⟨key, value⟩ := field
    rw [normalFields, ih, entries_cons]
    cases value.isUndefined <;> rfl

theorem spelledItems_eq_map : spelledItems items = items.map spelled := by
  induction items with
  | nil => rw [spelledItems, List.map_nil]
  | cons item items ih => rw [spelledItems, ih, List.map_cons]

theorem spelledFields_eq_map : spelledFields fields =
    fields.map fun field => (field.1, spelled field.2) := by
  induction fields with
  | nil => rw [spelledFields]; rfl
  | cons field fields ih =>
    obtain ⟨key, value⟩ := field
    rw [spelledFields, ih]
    rfl

theorem spelled_eq_undefined : spelled value = .undefined ↔ value = .undefined := by
  cases value <;> simp [spelled]

end Lists

/-! ## Sorted entries -/

section Sorted

variable {α β : Type} {l m : List (Units × α)}

theorem sortEntries_map (f : Units → α → β) (l : List (Units × α)) :
    sortEntries (l.map fun entry => (entry.1, f entry.1 entry.2)) =
      (sortEntries l).map fun entry => (entry.1, f entry.1 entry.2) := by
  rw [sortEntries, sortEntries]
  symm
  exact List.map_insertionSort _ _ _ _ fun a _ b _ => Iff.rfl

/-- Entries whose keys differ are sorted alike exactly if they are the same entries. -/
theorem sortEntries_eq_iff (hl : (l.map Prod.fst).Nodup) :
    sortEntries l = sortEntries m ↔ l.Perm m := by
  constructor
  · intro h
    have hsorted : (sortEntries l).Perm (sortEntries m) := by rw [h]
    exact ((List.perm_insertionSort _ l).symm.trans hsorted).trans (List.perm_insertionSort _ m)
  · intro h
    have : IsTrans (Units × α) fun left right => left.1 ≤ right.1 := ⟨fun _ _ _ => le_trans⟩
    have : Std.Total fun left right : Units × α => left.1 ≤ right.1 :=
      ⟨fun left right => le_total left.1 right.1⟩
    refine (insertionSort_eq_of_perm h.symm fun a ha b hb hab hba => ?_).symm
    exact List.inj_on_of_nodup_map hl ha hb (le_antisymm hab hba)

end Sorted

/-! ## The text of a plain value -/

section Text

variable {a b value : Value}

/-- Induction over a value: its items, and the values of its fields. -/
theorem Value.induction {P : Value → Prop} (undefined : P .undefined) (null : P .null)
    (boolean : ∀ value, P (.boolean value)) (number : ∀ value, P (.number value))
    (string : ∀ value, P (.string value)) (bigint : ∀ value, P (.bigint value))
    (array : ∀ items, (∀ item ∈ items, P item) → P (.array items))
    (object : ∀ fields, (∀ field ∈ fields, P field.2) → P (.object fields))
    (other : ∀ kind, P (.other kind)) : ∀ value, P value := by
  intro value
  refine @Value.rec P (fun items => ∀ item ∈ items, P item)
    (fun fields => ∀ field ∈ fields, P field.2) (fun field => P field.2)
    undefined null boolean number string bigint array object other ?_ ?_ ?_ ?_ ?_ value
  · exact fun item hitem => absurd hitem List.not_mem_nil
  · intro item items hitem hitems other hother
    rcases List.mem_cons.mp hother with rfl | hother
    · exact hitem
    · exact hitems other hother
  · exact fun field hfield => absurd hfield List.not_mem_nil
  · intro field fields hfield hfields other hother
    rcases List.mem_cons.mp hother with rfl | hother
    · exact hfield
    · exact hfields other hother
  · exact fun key value hvalue => hvalue

theorem mapM_eq_ok_map {ε α β : Type} {f : α → Except ε β} {g : α → β} {l : List α}
    (h : ∀ x ∈ l, f x = .ok (g x)) : l.mapM f = .ok (l.map g) := by
  induction l with
  | nil => rfl
  | cons x l ih =>
    rw [List.mapM_cons, h x List.mem_cons_self, ih fun y hy => h y (List.mem_cons_of_mem _ hy)]
    rfl

/-- **The text of a plain value** is that of its tree. -/
theorem canonicalize_eq (h : Plain value) : canonicalize value = .ok (normal value).render := by
  induction h with
  | null => rw [canonicalize, normal, Json.render]
  | boolean => rw [canonicalize, normal, Json.render]
  | number => rw [canonicalize, normal, Json.render]
  | string => rw [canonicalize, normal, Json.render]
  | bigint => rw [canonicalize, normal]
  | @array items _ ih =>
    have htexts : (items.map canonicalize).mapM id =
        (.ok ((items.map normal).map Json.render) : Except String (List Units)) := by
      rw [List.mapM_map, List.map_map]
      exact mapM_eq_ok_map ih
    rw [canonicalize, canonicalizeItems_eq_map, htexts, normal, normalItems_eq_map, Json.render,
      Json.renderItems_eq_map]
    rfl
  | @object fields _ _ ih =>
    have hentries : canonicalizeFields fields = (entries fields).map fun field =>
        (field.1, (.ok (normal field.2).render : Except String Units)) := by
      rw [canonicalizeFields_eq_map]
      refine List.map_congr_left fun field hfield => ?_
      rw [ih field (mem_entries.mp hfield).1 (mem_entries.mp hfield).2]
    have hrecord : sortEntries (canonicalizeFields fields) = (sortEntries (entries fields)).map
        fun field => (field.1, (.ok (normal field.2).render : Except String Units)) := by
      rw [hentries]
      exact sortEntries_map (fun _ value => (.ok (normal value).render : Except String Units)) _
    have hfields : sortEntries (normalFields fields) =
        (sortEntries (entries fields)).map fun field => (field.1, normal field.2) := by
      rw [normalFields_eq_map]
      exact sortEntries_map (fun _ value => normal value) _
    have htexts : ((sortEntries (entries fields)).map fun field =>
        (field.1, (.ok (normal field.2).render : Except String Units))).mapM
          (fun entry => entry.2.map (entryText entry.1)) =
        .ok ((sortEntries (entries fields)).map fun field =>
          entryText field.1 (normal field.2).render) := by
      rw [List.mapM_map]
      exact mapM_eq_ok_map fun field _ => rfl
    rw [canonicalize, hrecord, htexts, normal, hfields, Json.render, Json.renderFields_eq_map,
      List.map_map]
    rfl

/-! ## Bigints spelled out -/

theorem entries_spelledFields (fields : List (Units × Value)) : entries (spelledFields fields) =
    (entries fields).map fun field => (field.1, spelled field.2) := by
  rw [spelledFields_eq_map, entries, entries, List.filter_map]
  congr 1
  refine List.filter_congr fun field _ => ?_
  rw [Function.comp_apply]
  cases hundefined : field.2.isUndefined
  · rw [isUndefined_eq_false] at hundefined
    rw [isUndefined_eq_false.mpr (fun h => hundefined (spelled_eq_undefined.mp h))]
  · have heq : field.2 = .undefined := by
      by_contra hne
      rw [isUndefined_eq_false.mpr hne] at hundefined
      cases hundefined
    rw [heq]
    rfl

/-- A value has the tree of what spells it. -/
theorem normal_spelled (value : Value) : normal (spelled value) = normal value := by
  induction value using Value.induction with
  | undefined => rfl
  | null => rfl
  | boolean value => rfl
  | number value => rfl
  | string value => rfl
  | bigint value => rfl
  | array items ih =>
    rw [spelled, normal, normal, normalItems_eq_map, normalItems_eq_map, spelledItems_eq_map,
      List.map_map]
    congr 1
    exact List.map_congr_left ih
  | object fields ih =>
    rw [spelled, normal, normal, normalFields_eq_map, normalFields_eq_map, entries_spelledFields,
      List.map_map]
    congr 2
    refine List.map_congr_left fun field hfield => congrArg (Prod.mk field.1) ?_
    exact ih field (mem_entries.mp hfield).1
  | other kind => rfl

theorem spelled_spelled (value : Value) : spelled (spelled value) = spelled value := by
  induction value using Value.induction with
  | undefined => rfl
  | null => rfl
  | boolean value => rfl
  | number value => rfl
  | string value => rfl
  | bigint value => rfl
  | array items ih =>
    rw [spelled, spelled, spelledItems_eq_map, spelledItems_eq_map, List.map_map]
    congr 1
    exact List.map_congr_left ih
  | object fields ih =>
    rw [spelled, spelled, spelledFields_eq_map, spelledFields_eq_map, List.map_map]
    congr 1
    exact List.map_congr_left fun field hfield => congrArg (Prod.mk field.1) (ih field hfield)
  | other kind => rfl

theorem plain_spelled (h : Plain value) : Plain (spelled value) := by
  induction h with
  | null => exact .null
  | boolean => exact .boolean
  | number => exact .number
  | string => exact .string
  | bigint =>
    refine .object (List.nodup_singleton _) fun field hfield _ => ?_
    rw [List.mem_singleton.mp hfield]
    exact .string
  | array _ ih =>
    rw [spelled, spelledItems_eq_map]
    refine .array fun other hother => ?_
    obtain ⟨item, hitem, rfl⟩ := List.mem_map.mp hother
    exact ih item hitem
  | object hnodup _ ih =>
    rw [spelled, spelledFields_eq_map]
    refine .object ?_ fun other hother hdefined => ?_
    · rw [List.map_map]
      exact hnodup
    · obtain ⟨field, hfield, rfl⟩ := List.mem_map.mp hother
      exact ih field hfield fun h => hdefined (spelled_eq_undefined.mpr h)

/-- The keys that are defined are those of the spelled fields. -/
theorem exists_defined_spelled {fields : List (Units × Value)} {key : Units} :
    (∃ value, (key, value) ∈ spelledFields fields ∧ value ≠ .undefined) ↔
      ∃ value, (key, value) ∈ fields ∧ value ≠ .undefined := by
  rw [spelledFields_eq_map]
  constructor
  · rintro ⟨value, hmem, hdefined⟩
    obtain ⟨field, hfield, heq⟩ := List.mem_map.mp hmem
    obtain ⟨rfl, rfl⟩ := Prod.mk.inj heq
    exact ⟨field.2, hfield, fun h => hdefined (spelled_eq_undefined.mpr h)⟩
  · rintro ⟨value, hmem, hdefined⟩
    exact ⟨spelled value, List.mem_map_of_mem hmem, fun h => hdefined (spelled_eq_undefined.mp h)⟩

/-- Values that are the same are spelled the same. -/
theorem same_spelled (h : Same a b) : Same (spelled a) (spelled b) := by
  induction h with
  | null => exact .null
  | boolean => exact .boolean
  | number => exact .number
  | string => exact .string
  | bigint =>
    refine .object (fun key => Iff.rfl) fun key value other hvalue _ hother _ => ?_
    obtain ⟨-, rfl⟩ := Prod.mk.inj (List.mem_singleton.mp hvalue)
    obtain ⟨-, rfl⟩ := Prod.mk.inj (List.mem_singleton.mp hother)
    exact .string
  | @array items others hlength _ ih =>
    rw [spelled, spelled, spelledItems_eq_map, spelledItems_eq_map]
    refine .array (by rw [List.length_map, List.length_map, hlength]) ?_
    intro i x y hx hy
    rw [List.getElem?_map, Option.map_eq_some_iff] at hx hy
    obtain ⟨item, hitem, rfl⟩ := hx
    obtain ⟨other, hother, rfl⟩ := hy
    exact ih i item other hitem hother
  | @object fields others hkeys _ ih =>
    rw [spelled, spelled]
    refine .object (fun key => ?_) fun key x y hx hxdefined hy hydefined => ?_
    · rw [exists_defined_spelled, exists_defined_spelled]
      exact hkeys key
    · rw [spelledFields_eq_map] at hx hy
      obtain ⟨field, hfield, hfieldeq⟩ := List.mem_map.mp hx
      obtain ⟨rfl, rfl⟩ := Prod.mk.inj hfieldeq
      obtain ⟨other, hother, hothereq⟩ := List.mem_map.mp hy
      obtain ⟨hkey, rfl⟩ := Prod.mk.inj hothereq
      refine ih field.1 field.2 other.2 hfield (fun h => hxdefined (spelled_eq_undefined.mpr h))
        ?_ fun h => hydefined (spelled_eq_undefined.mpr h)
      rw [← hkey]
      exact hother

/-! ## Trees and values -/

theorem mem_normalFields {fields : List (Units × Value)} {key : Units} {tree : Json} :
    (key, tree) ∈ normalFields fields ↔
      ∃ value, (key, value) ∈ fields ∧ value ≠ .undefined ∧ normal value = tree := by
  rw [normalFields_eq_map]
  constructor
  · intro h
    obtain ⟨field, hfield, heq⟩ := List.mem_map.mp h
    obtain ⟨rfl, rfl⟩ := Prod.mk.inj heq
    obtain ⟨hmem, hdefined⟩ := mem_entries.mp hfield
    exact ⟨field.2, hmem, hdefined, rfl⟩
  · rintro ⟨value, hmem, hdefined, rfl⟩
    exact List.mem_map.mpr ⟨(key, value), mem_entries.mpr ⟨hmem, hdefined⟩, rfl⟩

/-- The keys of the tree differ if those of the object do. -/
theorem nodup_normalFields {fields : List (Units × Value)} (h : (fields.map Prod.fst).Nodup) :
    ((normalFields fields).map Prod.fst).Nodup := by
  rw [normalFields_eq_map, List.map_map]
  exact h.sublist (List.Sublist.map _ List.filter_sublist)

/-- Values that are the same have one tree. -/
theorem normal_eq_of_same (h : Same a b) (ha : Plain a) (hb : Plain b) : normal a = normal b := by
  induction h with
  | null => rfl
  | boolean => rfl
  | number => rfl
  | string => rfl
  | bigint => rfl
  | @array items others hlength _ ih =>
    cases ha with
    | array ha =>
      cases hb with
      | array hb =>
        rw [normal, normal, normalItems_eq_map, normalItems_eq_map]
        congr 1
        refine List.ext_getElem (by rw [List.length_map, List.length_map, hlength]) ?_
        intro i hi hi'
        rw [List.length_map] at hi hi'
        rw [List.getElem_map, List.getElem_map]
        exact ih i _ _ (List.getElem?_eq_getElem hi) (List.getElem?_eq_getElem hi')
          (ha _ (List.getElem_mem hi)) (hb _ (List.getElem_mem hi'))
  | @object fields others hkeys _ ih =>
    cases ha with
    | object hnodup ha =>
      cases hb with
      | object hnodup' hb =>
        rw [normal, normal]
        congr 1
        rw [sortEntries_eq_iff (nodup_normalFields hnodup),
          List.perm_ext_iff_of_nodup (nodup_normalFields hnodup).of_map
            (nodup_normalFields hnodup').of_map]
        rintro ⟨key, tree⟩
        rw [mem_normalFields, mem_normalFields]
        constructor
        · rintro ⟨value, hmem, hdefined, rfl⟩
          obtain ⟨other, hother, hodefined⟩ := (hkeys key).mp ⟨value, hmem, hdefined⟩
          exact ⟨other, hother, hodefined, (ih key value other hmem hdefined hother hodefined
            (ha _ hmem hdefined) (hb _ hother hodefined)).symm⟩
        · rintro ⟨other, hother, hodefined, rfl⟩
          obtain ⟨value, hmem, hdefined⟩ := (hkeys key).mpr ⟨other, hother, hodefined⟩
          exact ⟨value, hmem, hdefined, ih key value other hmem hdefined hother hodefined
            (ha _ hmem hdefined) (hb _ hother hodefined)⟩

theorem eq_of_map_eq_self {α : Type} {f : α → α} {l : List α} (h : l.map f = l) :
    ∀ x ∈ l, f x = x :=
  List.map_inj_left.mp (h.trans l.map_id.symm)

/-- The fields of one tree are values of one key each. -/
theorem perm_of_normal_eq {fields others : List (Units × Value)}
    (hnodup : (fields.map Prod.fst).Nodup)
    (h : normal (.object fields) = normal (.object others)) :
    (normalFields fields).Perm (normalFields others) := by
  rw [normal, normal] at h
  exact (sortEntries_eq_iff (nodup_normalFields hnodup)).mp (Json.object.inj h)

/-- **Of one tree** are only values that are the same, where no bigint is left. -/
theorem same_of_normal_eq (ha : Plain a) (hb : Plain b) (hsa : spelled a = a)
    (hsb : spelled b = b) (h : normal a = normal b) : Same a b := by
  induction a using Value.induction generalizing b with
  | undefined => cases ha
  | other kind => cases ha
  | null =>
    cases hb <;> cases h
    exact .null
  | boolean value =>
    cases hb <;> cases h
    exact .boolean
  | number value =>
    cases ha
    cases hb <;> cases h
    exact .number
  | string value =>
    cases hb <;> cases h
    exact .string
  | bigint value => cases hsa
  | array items ih =>
    cases ha with
    | array ha =>
      cases hb with
      | @array others hb =>
        rw [normal, normal, normalItems_eq_map, normalItems_eq_map] at h
        rw [spelled, spelledItems_eq_map] at hsa hsb
        have hlists := Json.array.inj h
        have hlength := congrArg List.length hlists
        rw [List.length_map, List.length_map] at hlength
        refine .array hlength fun i item other hitem hother => ?_
        have hmem := List.mem_of_getElem? hitem
        have hmem' := List.mem_of_getElem? hother
        have hat := congrArg (fun l : List Json => l[i]?) hlists
        simp only [List.getElem?_map, hitem, hother, Option.map_some, Option.some.injEq] at hat
        exact ih item hmem (ha item hmem) (hb other hmem')
          (eq_of_map_eq_self (Value.array.inj hsa) item hmem)
          (eq_of_map_eq_self (Value.array.inj hsb) other hmem') hat
      | bigint => cases hsb
      | _ => cases h
  | object fields ih =>
    cases ha with
    | object hnodup ha =>
      cases hb with
      | @object others hnodup' hb =>
        have hperm := perm_of_normal_eq hnodup h
        rw [spelled, spelledFields_eq_map] at hsa hsb
        refine .object (fun key => ?_) fun key value other hvalue hdefined hother hodefined => ?_
        · have hdefined : ∀ l : List (Units × Value), (∃ value, (key, value) ∈ l ∧
              value ≠ .undefined) ↔ ∃ tree, (key, tree) ∈ normalFields l := by
            intro l
            simp only [mem_normalFields]
            exact ⟨fun ⟨value, hmem, hvalue⟩ => ⟨normal value, value, hmem, hvalue, rfl⟩,
              fun ⟨_, value, hmem, hvalue, _⟩ => ⟨value, hmem, hvalue⟩⟩
          rw [hdefined, hdefined]
          exact exists_congr fun tree => hperm.mem_iff
        · have hmem : (key, normal value) ∈ normalFields others :=
            hperm.mem_iff.mp (mem_normalFields.mpr ⟨value, hvalue, hdefined, rfl⟩)
          obtain ⟨found, hfound, -, htree⟩ := mem_normalFields.mp hmem
          -- the keys of the other object differ, so that there is only one to compare with
          obtain rfl : found = other :=
            congrArg Prod.snd (List.inj_on_of_nodup_map hnodup' hfound hother rfl)
          have hself := congrArg Prod.snd (eq_of_map_eq_self (Value.object.inj hsa) _ hvalue)
          have hself' := congrArg Prod.snd (eq_of_map_eq_self (Value.object.inj hsb) _ hother)
          exact ih _ hvalue (ha _ hvalue hdefined) (hb _ hother hodefined) hself hself' htree.symm
      | bigint => cases hsb
      | _ => cases h

/-- **Plain values have one canonical text** exactly if they are the same, spelled out. -/
theorem canonicalize_eq_iff (ha : Plain a) (hb : Plain b) :
    canonicalize a = canonicalize b ↔ Same (spelled a) (spelled b) := by
  rw [canonicalize_eq ha, canonicalize_eq hb, Except.ok.injEq, Json.render_injective.eq_iff,
    ← normal_spelled a, ← normal_spelled b]
  have hpa := plain_spelled ha
  have hpb := plain_spelled hb
  exact ⟨fun h => same_of_normal_eq hpa hpb (spelled_spelled a) (spelled_spelled b) h,
    fun h => normal_eq_of_same h hpa hpb⟩

/-- **The canonical text tells values apart** for exactly the pairs that do not become the same
by spelling out their bigints. -/
theorem injective_iff (ha : Plain a) (hb : Plain b) :
    (canonicalize a = canonicalize b ↔ Same a b) ↔ (Same (spelled a) (spelled b) → Same a b) := by
  rw [canonicalize_eq_iff ha hb]
  exact ⟨fun h => h.mp, fun h => ⟨h, same_spelled⟩⟩

/-- Fields in another order, one of them undefined. -/
theorem injective_reordered : (canonicalize (.object [(units "b", .bigint 1), (units "a", .null)]) =
      canonicalize (.object [(units "a", .null), (units "c", .undefined), (units "b", .bigint 1)]) ↔
    Same (.object [(units "b", .bigint 1), (units "a", .null)])
      (.object [(units "a", .null), (units "c", .undefined), (units "b", .bigint 1)])) ↔
    (Same (spelled (.object [(units "b", .bigint 1), (units "a", .null)]))
      (spelled (.object [(units "a", .null), (units "c", .undefined), (units "b", .bigint 1)])) →
    Same (.object [(units "b", .bigint 1), (units "a", .null)])
      (.object [(units "a", .null), (units "c", .undefined), (units "b", .bigint 1)])) := by
  refine injective_iff (.object (by decide) ?_) (.object (by decide) ?_)
  · intro field hfield _
    simp only [List.mem_cons, List.not_mem_nil, or_false] at hfield
    rcases hfield with rfl | rfl
    · exact .bigint
    · exact .null
  · intro field hfield hdefined
    simp only [List.mem_cons, List.not_mem_nil, or_false] at hfield
    rcases hfield with rfl | rfl | rfl
    · exact .null
    · exact absurd rfl hdefined
    · exact .bigint

/-- A bigint and the object that spells it have one text. -/
theorem not_injective_bigint : ¬∀ a b, Plain a → Plain b →
    (canonicalize a = canonicalize b ↔ Same a b) := by
  intro h
  have hobject : Plain (.object [(units "$bigint", .string (units "1"))]) := by
    refine .object (List.nodup_singleton _) fun field hfield _ => ?_
    rw [List.mem_singleton.mp hfield]
    exact .string
  have hboth := (h (.bigint 1) _ .bigint hobject).mp (by
    rw [canonicalize_eq .bigint, canonicalize_eq hobject]
    rfl)
  cases hboth

end Text


end Canonical

end HoodSentry
