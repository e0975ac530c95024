import HoodSentry.Discovery.Model.Codec
/-!
# Discovery items survive storage

A stored item is read back as it was, its bigints included: the reviver sees
what the replacer made of a value once it has revived what is in it, and takes
an object for a bigint only where the replacer made it of one.
-/

namespace HoodSentry

namespace DiscoveryCodec

/-! ## Values -/

namespace Value

/-- Induction over a value: its items, and the values of its fields. -/
theorem induction {P : Value → Prop} (null : P .null) (boolean : ∀ value, P (.boolean value))
    (number : ∀ value, P (.number value)) (string : ∀ value, P (.string value))
    (bigint : ∀ value, P (.bigint value))
    (array : ∀ items, (∀ item ∈ items, P item) → P (.array items))
    (object : ∀ fields, (∀ field ∈ fields, P field.2) → P (.object fields)) :
    ∀ value, P value := by
  intro value
  refine @Value.rec P (fun items => ∀ item ∈ items, P item)
    (fun fields => ∀ field ∈ fields, P field.2) (fun field => P field.2)
    null boolean number string bigint array object ?_ ?_ ?_ ?_ ?_ value
  · exact fun item hitem => absurd hitem List.not_mem_nil
  · exact fun item items hitem hitems => List.forall_mem_cons.mpr ⟨hitem, hitems⟩
  · exact fun field hfield => absurd hfield List.not_mem_nil
  · exact fun field fields hfield hfields => List.forall_mem_cons.mpr ⟨hfield, hfields⟩
  · exact fun key value hvalue => hvalue

mutual

/-- Every object in a value passes a check of its keys. -/
def keysPass (check : List Units → Bool) : Value → Bool
  | .null | .boolean _ | .number _ | .string _ | .bigint _ => true
  | .array items => itemsPass check items
  | .object fields => check (fields.map Prod.fst) && fieldsPass check fields

def itemsPass (check : List Units → Bool) : List Value → Bool
  | [] => true
  | item :: items => keysPass check item && itemsPass check items

def fieldsPass (check : List Units → Bool) : List (Units × Value) → Bool
  | [] => true
  | (_, value) :: fields => keysPass check value && fieldsPass check fields

end

/-- **Own fields**: no object in a value has two of one key. -/
def ownFields (value : Value) : Bool := value.keysPass fun keys => decide keys.Nodup

/-- No object in a value has `$sentryBigint` as its only key. -/
def unmarked (value : Value) : Bool := value.keysPass fun keys => keys != [bigintKey]

variable {check : List Units → Bool}

theorem itemsPass_iff {items : List Value} :
    itemsPass check items ↔ ∀ item ∈ items, item.keysPass check := by
  induction items with
  | nil => simp [itemsPass]
  | cons item items ih => rw [itemsPass, Bool.and_eq_true, ih, List.forall_mem_cons]

theorem fieldsPass_iff {fields : List (Units × Value)} :
    fieldsPass check fields ↔ ∀ field ∈ fields, field.2.keysPass check := by
  induction fields with
  | nil => simp [fieldsPass]
  | cons field fields ih => rw [fieldsPass, Bool.and_eq_true, ih, List.forall_mem_cons]

theorem keysPass_object {fields : List (Units × Value)} :
    (Value.object fields).keysPass check ↔
      check (fields.map Prod.fst) ∧ ∀ field ∈ fields, field.2.keysPass check := by
  rw [keysPass, Bool.and_eq_true, fieldsPass_iff]

theorem keysPass_array {items : List Value} :
    (Value.array items).keysPass check ↔ ∀ item ∈ items, item.keysPass check := by
  rw [keysPass, itemsPass_iff]

end Value

/-! ## Replacing -/

theorem replaceItems_eq_map (items : List Value) : replaceItems items = items.map replace := by
  induction items with
  | nil => rw [replaceItems, List.map_nil]
  | cons item items ih => rw [replaceItems, ih, List.map_cons]

theorem replaceFields_eq_map (fields : List (Units × Value)) :
    replaceFields fields = fields.map fun field => (field.1, replace field.2) := by
  induction fields with
  | nil => rw [replaceFields, List.map_nil]
  | cons field fields ih =>
    obtain ⟨key, value⟩ := field
    rw [replaceFields, ih, List.map_cons]

/-- **The replacer keeps keys apart.** -/
theorem distinctKeys_replace (value : Value) (h : value.ownFields) :
    (replace value).distinctKeys := by
  induction value using Value.induction with
  | null | boolean _ | number _ | string _ => rw [replace]; rfl
  | bigint value =>
    rw [replace, Json.distinctKeys, Bool.and_eq_true, decide_eq_true_eq]
    exact ⟨List.nodup_singleton _, rfl⟩
  | array items ih =>
    have hitems := Value.keysPass_array.mp h
    rw [replace, replaceItems_eq_map, Json.distinctKeys, Json.distinctItems_iff]
    intro tree htree
    obtain ⟨item, hitem, rfl⟩ := List.mem_map.mp htree
    exact ih item hitem (hitems item hitem)
  | object fields ih =>
    obtain ⟨hnodup, hfields⟩ := Value.keysPass_object.mp h
    rw [replace, replaceFields_eq_map, Json.distinctKeys, Bool.and_eq_true,
      Json.distinctFields_iff, List.map_map]
    refine ⟨hnodup, ?_⟩
    intro entry hentry
    obtain ⟨field, hfield, rfl⟩ := List.mem_map.mp hentry
    exact ih field hfield (hfields field hfield)

/-! ## Reviving what was replaced -/

/-- Items that are each revived are revived together. -/
theorem reviveItems_replace {items : List Value}
    (h : ∀ item ∈ items, revive (replace item) = some item) :
    reviveItems (items.map replace) = some items := by
  induction items with
  | nil => rw [List.map_nil, reviveItems]
  | cons item items ih =>
    obtain ⟨hitem, hitems⟩ := List.forall_mem_cons.mp h
    rw [List.map_cons, reviveItems, hitem, Option.bind_some, ih hitems, Option.map_some]

theorem reviveFields_replace {fields : List (Units × Value)}
    (h : ∀ field ∈ fields, revive (replace field.2) = some field.2) :
    reviveFields (fields.map fun field => (field.1, replace field.2)) = some fields := by
  induction fields with
  | nil => rw [List.map_nil, reviveFields]
  | cons field fields ih =>
    obtain ⟨hfield, hfields⟩ := List.forall_mem_cons.mp h
    rw [List.map_cons, reviveFields, hfield, Option.bind_some, ih hfields, Option.map_some]

/-- The reviver leaves an object alone whose only key is not the marker. -/
theorem reviver_of_unmarked {record : List (Units × Value)}
    (h : record.map Prod.fst ≠ [bigintKey]) : reviver record = some (.object record) := by
  unfold reviver
  split
  · rename_i hone
    obtain ⟨⟨key, value⟩, rfl⟩ := List.length_eq_one_iff.mp hone
    have hkey : key ≠ bigintKey := fun heq => h (by rw [heq]; rfl)
    have hfield : field [(key, value)] "$sentryBigint" = none := by
      rw [field, List.find?_cons_of_neg (by simpa [bigintKey] using hkey)]
      rfl
    rw [hfield]
  · rfl

/-- The marker of a bigint is revived as the bigint. -/
theorem reviver_marker (value : ℤ) :
    reviver [(bigintKey, .string (intText value))] = some (.bigint value) := by
  have hfield : field [(bigintKey, .string (intText value))] "$sentryBigint" =
      some (.string (intText value)) := by
    rw [field, List.find?_cons_of_pos (by simp [bigintKey])]
    rfl
  rw [reviver, if_pos List.length_singleton, hfield]
  show (bigIntOf (intText value)).map Value.bigint = _
  rw [bigIntOf_intText]
  rfl

/-- **What was replaced is revived**: the induction is on the value, and
what is in an object has been revived when the reviver looks at it. -/
theorem revive_replace (value : Value) (h : value.unmarked) :
    revive (replace value) = some value := by
  induction value using Value.induction with
  | null | boolean _ | number _ | string _ => rw [replace, revive]
  | bigint value =>
    rw [replace, revive, reviveFields, revive, Option.bind_some, reviveFields]
    exact reviver_marker value
  | array items ih =>
    have hitems := Value.keysPass_array.mp h
    rw [replace, replaceItems_eq_map, revive,
      reviveItems_replace fun item hitem => ih item hitem (hitems item hitem), Option.map_some]
  | object fields ih =>
    obtain ⟨hkeys, hfields⟩ := Value.keysPass_object.mp h
    rw [replace, replaceFields_eq_map, revive,
      reviveFields_replace fun field hfield => ih field hfield (hfields field hfield),
      Option.bind_some]
    exact reviver_of_unmarked (bne_iff_ne.mp hkeys)

/-- **A stored value that its schema accepts** is read back. -/
theorem parseStored_stringify {schema : Value → Bool} {value : Value} (message : String)
    (hown : value.ownFields) (hmark : value.unmarked) (hschema : schema value) :
    parseStored schema message (stringify value) = .ok value := by
  unfold parseStored stringify
  rw [Json.parse_render (distinctKeys_replace value hown)]
  dsimp only
  rw [revive_replace value hmark]
  exact if_pos hschema

/-! ## Items -/

section Items

variable (isAddress isHash : Units → Bool)

/-- **A discovery item**: an object with its own fields, of which the types
are those that `DiscoveryItem` gives them, with an address and a hash. -/
structure Item where
  record : List (Units × Value)
  own : (Value.object record).ownFields
  chainId : ∃ n, field record "chainId" = some (.number n)
  address : ∃ text, field record "address" = some (.string text) ∧ isAddress text
  sourceBlockNumber : ∃ n, field record "sourceBlockNumber" = some (.bigint n)
  sourceBlockHash : ∃ text, field record "sourceBlockHash" = some (.string text) ∧ isHash text
  canonical : ∃ b, field record "canonical" = some (.boolean b)
  trending : ∃ score n, field record "trending" = some (.object score) ∧
    field score "scoreBps" = some (.bigint n)

variable {isAddress isHash}

/-- The schema accepts every item. -/
theorem Item.accepted (item : Item isAddress isHash) :
    discoveryItemSchema isAddress isHash (.object item.record) := by
  obtain ⟨chainId, hchain⟩ := item.chainId
  obtain ⟨address, haddress, hvalid⟩ := item.address
  obtain ⟨number, hnumber⟩ := item.sourceBlockNumber
  obtain ⟨hash, hhash, hhashvalid⟩ := item.sourceBlockHash
  obtain ⟨canonical, hcanonical⟩ := item.canonical
  obtain ⟨score, bps, htrending, hscore⟩ := item.trending
  rw [discoveryItemSchema, hchain, haddress, hnumber, hhash, hcanonical, htrending]
  simp only [isNumber, isString, isBigint, isBoolean, isTrending, hvalid, hhashvalid, hscore,
    Bool.and_self]

/-- **An item survives storage.** -/
theorem parseDiscoveryItem_serialize (item : Item isAddress isHash)
    (h : (Value.object item.record).unmarked) :
    parseDiscoveryItem isAddress isHash (serializeDiscoveryItem (.object item.record)) =
      .ok (.object item.record) :=
  parseStored_stringify _ item.own h item.accepted

/-- An address that is all digits is its own checksum. -/
def bareAddress : Units := units "0x0000000000000000000000000000000000000001"

def bareHash : Units := units "0x0000000000000000000000000000000000000000000000000000000000000002"

/-- The fields of an item with a negative component and two components in a list. -/
def bareRecord : List (Units × Value) :=
  [(units "chainId", .number (.decimal ⟨false, [4, 6, 6, 3], 4, by decide, by decide, by decide⟩)),
    (units "address", .string bareAddress), (units "sourceBlockNumber", .bigint (2 ^ 70)),
    (units "sourceBlockHash", .string bareHash), (units "canonical", .boolean true),
    (units "trending", .object [(units "scoreBps", .bigint 5),
      (units "components", .array [.object [(units "rawValue", .bigint (-3)),
        (units "available", .boolean true)], .object []])])]

def bareItem : Item (fun text => text = bareAddress) (fun text => text = bareHash) where
  record := bareRecord
  own := by decide +kernel
  chainId := ⟨_, rfl⟩
  address := ⟨bareAddress, rfl, decide_eq_true rfl⟩
  sourceBlockNumber := ⟨_, rfl⟩
  sourceBlockHash := ⟨bareHash, rfl, decide_eq_true rfl⟩
  canonical := ⟨_, rfl⟩
  trending := ⟨_, _, rfl, rfl⟩

theorem parseDiscoveryItem_bareItem :
    parseDiscoveryItem (fun text => text = bareAddress) (fun text => text = bareHash)
      (serializeDiscoveryItem (.object bareRecord)) = .ok (.object bareRecord) :=
  parseDiscoveryItem_serialize bareItem (by decide +kernel)

end Items

end DiscoveryCodec

end HoodSentry
