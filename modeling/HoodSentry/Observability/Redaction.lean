import HoodSentry.Observability.RedactedTexts
/-!
# What redaction leaves

Of a nested value the texts of the fields are all redacted, and what is left
unredacted are exactly the texts that are no field of their own: the whole
value, and the elements of arrays.
-/

namespace HoodSentry

namespace Redact

/-! ## Nested values -/

section Values

variable {π : Type} {key name text : String} {value : LogValue π}

/-- Induction over a value: its items, and the values of its fields. -/
theorem LogValue.induction {P : LogValue π → Prop} (primitive : ∀ value, P (.primitive value))
    (string : ∀ text, P (.string text))
    (array : ∀ items, (∀ item ∈ items, P item) → P (.array items))
    (object : ∀ fields, (∀ field ∈ fields, P field.2) → P (.object fields)) :
    ∀ value, P value := by
  intro value
  refine @LogValue.rec π P (fun items => ∀ item ∈ items, P item)
    (fun fields => ∀ field ∈ fields, P field.2) (fun field => P field.2)
    primitive string array object ?_ ?_ ?_ ?_ ?_ value
  · exact fun item hitem => absurd hitem List.not_mem_nil
  · intro item items hitem hitems other hother
    rcases List.mem_cons.mp hother with rfl | hother
    · exact hitem
    · exact hitems other hother
  · exact fun field hfield => absurd hfield List.not_mem_nil
  · intro field fields hfield hfields other hother
    rcases List.mem_cons.mp hother with rfl | hother
    · exact hfield
    · exact hfields other hother
  · exact fun name value hvalue => hvalue

/-- What becomes of the value of a field. -/
def redactField (key : String) (value : LogValue π) : LogValue π :=
  if isSecretKey key then .string REDACTED
  else if isPiiKey key then .string REDACTED_PII
  else
    match value with
    | .string value => .string (redactStringValue key value)
    | value => redactSecrets value

theorem redactItems_eq_map (items : List (LogValue π)) :
    redactItems items = items.map redactSecrets := by
  induction items with
  | nil => rw [redactItems, List.map_nil]
  | cons item items ih => rw [redactItems, ih, List.map_cons]

theorem redactFields_eq_map (fields : List (String × LogValue π)) : redactFields fields =
    (fields.filter fun field => field.1 ≠ "__proto__").map fun field =>
      (field.1, redactField field.1 field.2) := by
  induction fields with
  | nil => rw [redactFields]; rfl
  | cons field fields ih =>
    obtain ⟨key, value⟩ := field
    have hstep : redactFields ((key, value) :: fields) = if key = "__proto__" then
        redactFields fields else (key, redactField key value) :: redactFields fields := by
      cases value <;> rfl
    rw [hstep, ih, List.filter_cons]
    by_cases hproto : key = "__proto__"
    · simp [hproto]
    · simp [hproto]

/-- A text of the value, with the nearest enclosing key: the value itself stands under a key. -/
inductive TextUnder : String → LogValue π → String → String → Prop
  | whole {key text : String} : TextUnder key (.string text) key text
  | item {key name text : String} {items : List (LogValue π)} {item : LogValue π} :
      item ∈ items → TextUnder key item name text → TextUnder key (.array items) name text
  | field {key name text : String} {fields : List (String × LogValue π)}
      {field : String × LogValue π} :
      field ∈ fields → TextUnder field.1 field.2 name text →
        TextUnder key (.object fields) name text

/-- A text that is no field of its own: the value itself, or an item, where no key hides it. -/
inductive BareText : String → LogValue π → String → String → Prop
  | whole {key text : String} : BareText key (.string text) key text
  | item {key name text : String} {items : List (LogValue π)} {item : LogValue π} :
      item ∈ items → BareText key item name text → BareText key (.array items) name text
  | field {key name text : String} {fields : List (String × LogValue π)}
      {field : String × LogValue π} :
      field ∈ fields → isSecretKey field.1 = false → isPiiKey field.1 = false →
        (∀ text, field.2 ≠ .string text) → BareText field.1 field.2 name text →
        BareText key (.object fields) name text

/-- **What a key hides** is a marker, in every object of the value. -/
inductive Hidden : LogValue π → Prop
  | primitive {value : π} : Hidden (.primitive value)
  | string {text : String} : Hidden (.string text)
  | array {items : List (LogValue π)} : (∀ item ∈ items, Hidden item) → Hidden (.array items)
  | object {fields : List (String × LogValue π)} :
      (∀ field ∈ fields, isSecretKey field.1 → field.2 = .string REDACTED) →
      (∀ field ∈ fields, isPiiKey field.1 → field.2 = .string REDACTED_PII ∨
        field.2 = .string REDACTED) →
      (∀ field ∈ fields, Hidden field.2) → Hidden (.object fields)

/-- A field `__proto__` that is reached, where no key hides it. -/
inductive HasProto : LogValue π → Prop
  | here {fields : List (String × LogValue π)} {value : LogValue π} :
      ("__proto__", value) ∈ fields → HasProto (.object fields)
  | item {items : List (LogValue π)} {item : LogValue π} :
      item ∈ items → HasProto item → HasProto (.array items)
  | field {fields : List (String × LogValue π)} {field : String × LogValue π} :
      field ∈ fields → isSecretKey field.1 = false → isPiiKey field.1 = false →
        HasProto field.2 → HasProto (.object fields)

/-- What is kept of a field's value when its key hides it. -/
def skeletonUnder (key : String) (inner : LogValue Unit) : LogValue Unit :=
  if isSecretKey key || isPiiKey key then .primitive () else inner

mutual

/-- The value's keys and lengths of arrays, down to what a key hides. -/
def skeleton : LogValue π → LogValue Unit
  | .primitive _ => .primitive ()
  | .string _ => .primitive ()
  | .array items => .array (skeletonItems items)
  | .object fields => .object (skeletonFields fields)

def skeletonItems : List (LogValue π) → List (LogValue Unit)
  | [] => []
  | item :: items => skeleton item :: skeletonItems items

def skeletonFields : List (String × LogValue π) → List (String × LogValue Unit)
  | [] => []
  | (key, value) :: fields => (key, skeletonUnder key (skeleton value)) :: skeletonFields fields

end

theorem skeletonItems_eq_map (items : List (LogValue π)) :
    skeletonItems items = items.map skeleton := by
  induction items with
  | nil => rw [skeletonItems, List.map_nil]
  | cons item items ih => rw [skeletonItems, ih, List.map_cons]

theorem skeletonFields_eq_map (fields : List (String × LogValue π)) : skeletonFields fields =
    fields.map fun field => (field.1, skeletonUnder field.1 (skeleton field.2)) := by
  induction fields with
  | nil => rw [skeletonFields, List.map_nil]
  | cons field fields ih =>
    obtain ⟨key, value⟩ := field
    rw [skeletonFields, ih, List.map_cons]

/-- **A value is redacted**: no text of the outcome asks to be redacted under its nearest key,
what a key hides is a marker, the shape is that of the value, and a second pass changes nothing. -/
structure Redacted (value out : LogValue π) : Prop where
  texts : ∀ name text, TextUnder "" out name text → redactStringValue name text = text
  clean : ∀ name text, TextUnder "" out name text →
    SIGNATURE_PATTERN text = false ∧ SESSION_COOKIE_PATTERN text = false ∧
      (PROVIDER_URL_WITH_KEY_PATTERN text → replaceParameters none text.toList = text.toList)
  hidden : Hidden out
  shape : skeleton out = skeleton value
  again : redactSecrets out = out

end Values

/-! ## The outcome -/

section Outcome

variable {π : Type} {key name text : String} {value : LogValue π}
  {fields : List (String × LogValue π)} {field : String × LogValue π}

theorem redactField_of_secret (h : isSecretKey key) : redactField key value = .string REDACTED := by
  unfold redactField
  rw [if_pos h]

theorem redactField_of_pii (hsecret : isSecretKey key = false) (h : isPiiKey key) :
    redactField key value = .string REDACTED_PII := by
  unfold redactField
  rw [if_neg (by rw [hsecret]; decide), if_pos h]

theorem redactField_string (hsecret : isSecretKey key = false) (hpii : isPiiKey key = false) :
    redactField key (.string text : LogValue π) = .string (redactStringValue key text) := by
  unfold redactField
  rw [if_neg (by rw [hsecret]; decide), if_neg (by rw [hpii]; decide)]

theorem redactField_nested (hsecret : isSecretKey key = false) (hpii : isPiiKey key = false)
    (h : ∀ text, value ≠ .string text) : redactField key value = redactSecrets value := by
  unfold redactField
  rw [if_neg (by rw [hsecret]; decide), if_neg (by rw [hpii]; decide)]
  cases value with
  | string text => exact absurd rfl (h text)
  | primitive value => rfl
  | array items => rfl
  | object fields => rfl

/-- **The kinds of a field**: hidden as a secret, as personal, a text, or a nested value. -/
theorem redactField_cases (key : String) (value : LogValue π) :
    isSecretKey key ∨ (isSecretKey key = false ∧ isPiiKey key) ∨
      (isSecretKey key = false ∧ isPiiKey key = false ∧ ∃ text, value = .string text) ∨
      (isSecretKey key = false ∧ isPiiKey key = false ∧ ∀ text, value ≠ .string text) := by
  cases hsecret : isSecretKey key
  · cases hpii : isPiiKey key
    · by_cases htext : ∃ text, value = .string text
      · exact Or.inr (Or.inr (Or.inl ⟨rfl, rfl, htext⟩))
      · exact Or.inr (Or.inr (Or.inr ⟨rfl, rfl, fun text h => htext ⟨text, h⟩⟩))
    · exact Or.inr (Or.inl ⟨rfl, rfl⟩)
  · exact Or.inl rfl

theorem redactSecrets_array (items : List (LogValue π)) :
    redactSecrets (.array items) = .array (items.map redactSecrets) := by
  rw [redactSecrets, redactItems_eq_map]

theorem redactSecrets_object (fields : List (String × LogValue π)) :
    redactSecrets (.object fields) = .object ((fields.filter fun field => field.1 ≠ "__proto__").map fun field =>
      (field.1, redactField field.1 field.2)) := by
  rw [redactSecrets, redactFields_eq_map]

theorem exists_of_mem_redacted {other : String × LogValue π}
    (h : other ∈ (fields.filter fun field => field.1 ≠ "__proto__").map fun field =>
      (field.1, redactField field.1 field.2)) :
    ∃ field ∈ fields, field.1 ≠ "__proto__" ∧ other = (field.1, redactField field.1 field.2) := by
  obtain ⟨field, hfield, rfl⟩ := List.mem_map.mp h
  rw [List.mem_filter, decide_eq_true_iff] at hfield
  exact ⟨field, hfield.1, hfield.2, rfl⟩

/-- **The texts of the outcome** are left alone, if those are that are no field of their own. -/
theorem redactStringValue_of_textUnder
    (hbare : ∀ name text, BareText key value name text → Harmless name text)
    (h : TextUnder key (redactSecrets value) name text) : redactStringValue name text = text := by
  induction value using LogValue.induction generalizing key name text with
  | primitive value =>
    rw [redactSecrets] at h
    cases h
  | string other =>
    rw [redactSecrets] at h
    cases h
    exact redactStringValue_eq_self_iff.mpr (hbare _ _ .whole)
  | array items ih =>
    rw [redactSecrets_array] at h
    cases h with
    | item hmem h =>
      obtain ⟨item, hitem, rfl⟩ := List.mem_map.mp hmem
      exact ih item hitem (fun name text hinner => hbare name text (.item hitem hinner)) h
  | object fields ih =>
    rw [redactSecrets_object] at h
    cases h with
    | field hmem h =>
      obtain ⟨field, hfield, -, rfl⟩ := exists_of_mem_redacted hmem
      simp only at h
      rcases redactField_cases field.1 field.2 with hkey | ⟨hsecret, hkey⟩ |
        ⟨hsecret, hpii, inner, hinner⟩ | ⟨hsecret, hpii, hnested⟩
      · rw [redactField_of_secret hkey] at h
        cases h
        exact redactStringValue_REDACTED
      · rw [redactField_of_pii hsecret hkey] at h
        cases h
        exact redactStringValue_REDACTED_PII
      · rw [hinner, redactField_string hsecret hpii] at h
        cases h
        exact redactStringValue_redactStringValue
      · rw [redactField_nested hsecret hpii hnested] at h
        exact ih field hfield (fun name text hinner =>
          hbare name text (.field hfield hsecret hpii hnested hinner)) h

/-- A text that is no field of its own comes out as it is. -/
theorem BareText.textUnder (h : BareText key value name text) (hproto : ¬HasProto value) :
    TextUnder key (redactSecrets value) name text := by
  induction h with
  | whole =>
    rw [redactSecrets]
    exact .whole
  | item hitem _ ih =>
    rw [redactSecrets_array]
    exact .item (List.mem_map_of_mem hitem) (ih fun h => hproto (.item hitem h))
  | @field _ _ _ fields field hfield hsecret hpii hnested _ ih =>
    have hname : field.1 ≠ "__proto__" := by
      intro hname
      refine hproto (@HasProto.here _ _ field.2 ?_)
      rw [← hname]
      exact hfield
    have hmem : (field.1, redactField field.1 field.2) ∈
        (fields.filter fun field => field.1 ≠ "__proto__").map fun field =>
          (field.1, redactField field.1 field.2) :=
      List.mem_map_of_mem (List.mem_filter.mpr ⟨hfield, decide_eq_true hname⟩)
    rw [redactSecrets_object]
    refine .field hmem ?_
    simp only
    rw [redactField_nested hsecret hpii hnested]
    exact ih fun h => hproto (.field hfield hsecret hpii h)

/-- **What a key hides** is a marker in the outcome. -/
theorem hidden_redactSecrets : Hidden (redactSecrets value) := by
  induction value using LogValue.induction with
  | primitive value =>
    rw [redactSecrets]
    exact .primitive
  | string text =>
    rw [redactSecrets]
    exact .string
  | array items ih =>
    rw [redactSecrets_array]
    refine .array fun other hother => ?_
    obtain ⟨item, hitem, rfl⟩ := List.mem_map.mp hother
    exact ih item hitem
  | object fields ih =>
    rw [redactSecrets_object]
    refine .object (fun other hother hkey => ?_) (fun other hother hkey => ?_)
      (fun other hother => ?_)
    all_goals obtain ⟨field, hfield, -, rfl⟩ := exists_of_mem_redacted hother
    · exact redactField_of_secret hkey
    · by_cases hsecret : isSecretKey field.1
      · exact Or.inr (redactField_of_secret hsecret)
      · exact Or.inl (redactField_of_pii (Bool.eq_false_iff.mpr hsecret) hkey)
    · simp only
      rcases redactField_cases field.1 field.2 with hkey | ⟨hsecret, hkey⟩ |
        ⟨hsecret, hpii, inner, hinner⟩ | ⟨hsecret, hpii, hnested⟩
      · rw [redactField_of_secret hkey]
        exact .string
      · rw [redactField_of_pii hsecret hkey]
        exact .string
      · rw [hinner, redactField_string hsecret hpii]
        exact .string
      · rw [redactField_nested hsecret hpii hnested]
        exact ih field hfield

/-- A nested value is redacted to no text. -/
theorem redactSecrets_ne_string (h : ∀ text, value ≠ .string text) :
    ∀ text, redactSecrets value ≠ .string text := by
  intro text heq
  cases value with
  | string other => exact h other rfl
  | primitive other => rw [redactSecrets] at heq; cases heq
  | array items => rw [redactSecrets] at heq; cases heq
  | object fields => rw [redactSecrets] at heq; cases heq

/-- **A second pass** changes nothing. -/
theorem redactSecrets_redactSecrets :
    redactSecrets (redactSecrets value) = redactSecrets value := by
  induction value using LogValue.induction with
  | primitive value => rw [redactSecrets, redactSecrets]
  | string text => rw [redactSecrets, redactSecrets]
  | array items ih =>
    rw [redactSecrets_array, redactSecrets_array, List.map_map]
    congr 1
    exact List.map_congr_left ih
  | object fields ih =>
    rw [redactSecrets_object, redactSecrets_object]
    congr 1
    rw [List.filter_map, List.map_map]
    have hkept : (fields.filter fun field => field.1 ≠ "__proto__").filter
        ((fun field : String × LogValue π => decide (field.1 ≠ "__proto__")) ∘ fun field =>
          (field.1, redactField field.1 field.2)) =
        fields.filter fun field => field.1 ≠ "__proto__" := by
      refine List.filter_eq_self.mpr fun field hfield => ?_
      exact (List.mem_filter.mp hfield).2
    rw [hkept]
    refine List.map_congr_left fun field hfield => ?_
    have hmem := (List.mem_filter.mp hfield).1
    simp only [Function.comp_apply]
    congr 1
    rcases redactField_cases field.1 field.2 with hkey | ⟨hsecret, hkey⟩ |
      ⟨hsecret, hpii, inner, hinner⟩ | ⟨hsecret, hpii, hnested⟩
    · rw [redactField_of_secret hkey, redactField_of_secret hkey]
    · rw [redactField_of_pii hsecret hkey, redactField_of_pii hsecret hkey]
    · rw [hinner, redactField_string hsecret hpii, redactField_string hsecret hpii,
        redactStringValue_redactStringValue]
    · rw [redactField_nested hsecret hpii hnested,
        redactField_nested hsecret hpii (redactSecrets_ne_string hnested), ih field hmem]

theorem skeleton_array (items : List (LogValue π)) :
    skeleton (.array items) = .array (items.map skeleton) := by
  rw [skeleton, skeletonItems_eq_map]

theorem skeleton_object (fields : List (String × LogValue π)) : skeleton (.object fields) =
    .object (fields.map fun field => (field.1, skeletonUnder field.1 (skeleton field.2))) := by
  rw [skeleton, skeletonFields_eq_map]

/-- A field keeps its skeleton if its value does, where no key hides it. -/
theorem skeletonUnder_redactField (h : isSecretKey key = false → isPiiKey key = false →
      skeleton (redactSecrets value) = skeleton value) :
    skeletonUnder key (skeleton (redactField key value)) = skeletonUnder key (skeleton value) := by
  rcases redactField_cases key value with hkey | ⟨hsecret, hkey⟩ | ⟨hsecret, hpii, inner, hinner⟩ |
    ⟨hsecret, hpii, hnested⟩
  · simp [skeletonUnder, hkey]
  · simp [skeletonUnder, hkey]
  · rw [hinner, redactField_string hsecret hpii, skeleton, skeleton]
  · rw [redactField_nested hsecret hpii hnested, h hsecret hpii]

/-- **The shape is kept** where no field `__proto__` is reached. -/
theorem skeleton_redactSecrets (h : ¬HasProto value) :
    skeleton (redactSecrets value) = skeleton value := by
  induction value using LogValue.induction with
  | primitive value => rw [redactSecrets]
  | string text => rw [redactSecrets]
  | array items ih =>
    rw [redactSecrets_array, skeleton_array, skeleton_array, List.map_map]
    congr 1
    exact List.map_congr_left fun item hitem => ih item hitem fun hp => h (.item hitem hp)
  | object fields ih =>
    have hall : (fields.filter fun field => field.1 ≠ "__proto__") = fields := by
      refine List.filter_eq_self.mpr fun field hfield => decide_eq_true fun hname => ?_
      refine h (@HasProto.here _ _ field.2 ?_)
      rw [← hname]
      exact hfield
    rw [redactSecrets_object, skeleton_object, skeleton_object, hall, List.map_map]
    congr 1
    refine List.map_congr_left fun field hfield => congrArg (Prod.mk field.1) ?_
    exact skeletonUnder_redactField fun hsecret hpii =>
      ih field hfield fun hp => h (.field hfield hsecret hpii hp)

/-- A reached field `__proto__` is missing in the outcome. -/
theorem skeleton_redactSecrets_ne (h : HasProto value) :
    skeleton (redactSecrets value) ≠ skeleton value := by
  induction h with
  | @here fields value hmem =>
    intro heq
    rw [redactSecrets_object, skeleton_object, skeleton_object, List.map_map] at heq
    have hlength := congrArg List.length (LogValue.object.inj heq)
    rw [List.length_map, List.length_map] at hlength
    have hkept := List.length_filter_eq_length_iff.mp hlength _ hmem
    exact absurd hkept (by simp)
  | @item items item hitem _ ih =>
    intro heq
    rw [redactSecrets_array, skeleton_array, skeleton_array, List.map_map] at heq
    exact ih (List.map_inj_left.mp (LogValue.array.inj heq) item hitem)
  | @field fields field hfield hsecret hpii hinner ih =>
    intro heq
    rw [redactSecrets_object, skeleton_object, skeleton_object, List.map_map] at heq
    have hlists := LogValue.object.inj heq
    have hlength := congrArg List.length hlists
    rw [List.length_map, List.length_map] at hlength
    rw [List.filter_eq_self.mpr (List.length_filter_eq_length_iff.mp hlength)] at hlists
    have hsame := congrArg Prod.snd (List.map_inj_left.mp hlists field hfield)
    have hnested : ∀ text, field.2 ≠ .string text := by
      intro text htext
      rw [htext] at hinner
      cases hinner
    simp only [Function.comp_apply, redactField_nested hsecret hpii hnested, skeletonUnder,
      hsecret, hpii, Bool.or_false, Bool.false_eq_true, if_false] at hsame
    exact ih hsame

/-- **Redaction**: exactly the values are redacted in which every text that is no field of its
own is harmless, and in which no field `__proto__` is reached. -/
theorem redacted_iff (value : LogValue π) : Redacted value (redactSecrets value) ↔
    (∀ name text, BareText "" value name text → Harmless name text) ∧ ¬HasProto value := by
  constructor
  · intro h
    have hproto : ¬HasProto value := fun hp => skeleton_redactSecrets_ne hp h.shape
    exact ⟨fun name text hbare => redactStringValue_eq_self_iff.mp
      (h.texts name text (hbare.textUnder hproto)), hproto⟩
  · intro ⟨hbare, hproto⟩
    have htexts : ∀ name text, TextUnder "" (redactSecrets value) name text →
        redactStringValue name text = text :=
      fun name text h => redactStringValue_of_textUnder hbare h
    refine ⟨htexts, fun name text h => ?_, hidden_redactSecrets, skeleton_redactSecrets hproto,
      redactSecrets_redactSecrets⟩
    have hharmless := redactStringValue_eq_self_iff.mp (htexts name text h)
    exact ⟨hharmless.signature, hharmless.session, hharmless.url⟩

/-- The cookie of a request's headers is left in an array. -/
theorem not_redacted_headers : ¬Redacted
    (.object [("headers", .array [.string "connect.sid=s3cr3t"])] : LogValue Unit)
    (redactSecrets (.object [("headers", .array [.string "connect.sid=s3cr3t"])])) := by
  intro h
  have hunder : TextUnder "" (redactSecrets
      (.object [("headers", .array [.string "connect.sid=s3cr3t"])] : LogValue Unit))
      "headers" "connect.sid=s3cr3t" := by
    rw [redactSecrets_object]
    refine @TextUnder.field _ _ _ _ _ ("headers", .array [.string "connect.sid=s3cr3t"]) ?_ ?_
    · exact List.mem_cons_self
    · exact .item List.mem_cons_self .whole
  have hcookie := (h.clean _ _ hunder).2.1
  exact absurd hcookie (by decide)

end Outcome

end Redact

end HoodSentry
