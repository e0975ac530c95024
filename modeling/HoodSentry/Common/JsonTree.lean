import HoodSentry.Common.JsonText
/-!
# JSON trees have one text each

The text of a tree of JSON: what `JSON.stringify` makes of one whose objects
list their fields in order. What stands behind a text stops it: a comma or a
closing bracket. Up to there a tree is read one way (`render_append_inj`), by
induction on the tree; a list of texts is read up to its closing bracket
(`joined_inj`), whatever its elements are.
-/

namespace HoodSentry

inductive Json
  | null
  | boolean (value : Bool)
  | number (value : FiniteNumber)
  | string (value : Units)
  | array (items : List Json)
  | object (fields : List (Units × Json))

/-- `join(',')`. -/
def joined (texts : List Units) : Units := [unit ','].intercalate texts

namespace Json

/-- Induction over a tree: its items, and the values of its fields. -/
theorem induction {P : Json → Prop} (null : P .null) (boolean : ∀ value, P (.boolean value))
    (number : ∀ value, P (.number value)) (string : ∀ value, P (.string value))
    (array : ∀ items, (∀ item ∈ items, P item) → P (.array items))
    (object : ∀ fields, (∀ field ∈ fields, P field.2) → P (.object fields)) : ∀ tree, P tree := by
  intro tree
  refine @Json.rec P (fun items => ∀ item ∈ items, P item)
    (fun fields => ∀ field ∈ fields, P field.2) (fun field => P field.2)
    null boolean number string array object ?_ ?_ ?_ ?_ ?_ tree
  · exact fun item hitem => absurd hitem List.not_mem_nil
  · intro item items hitem hitems other hother
    rcases List.mem_cons.mp hother with rfl | hother
    · exact hitem
    · exact hitems other hother
  · exact fun field hfield => absurd hfield List.not_mem_nil
  · intro field fields hfield hfields other hother
    rcases List.mem_cons.mp hother with rfl | hother
    · exact hfield
    · exact hfields other hother
  · exact fun key value hvalue => hvalue

mutual

def render : Json → Units
  | .null => units "null"
  | .boolean value => units (if value then "true" else "false")
  | .number value => numberText value
  | .string value => quoted value
  | .array items => unit '[' :: (joined (renderItems items) ++ [unit ']'])
  | .object fields => unit '\x7b' :: (joined (renderFields fields) ++ [unit '\x7d'])

def renderItems : List Json → List Units
  | [] => []
  | item :: items => render item :: renderItems items

def renderFields : List (Units × Json) → List Units
  | [] => []
  | (key, value) :: fields => (quoted key ++ unit ':' :: render value) :: renderFields fields

end

/-- A field's text: its key, a colon and its value. -/
def renderField (field : Units × Json) : Units := quoted field.1 ++ unit ':' :: render field.2

theorem renderItems_eq_map (items : List Json) : renderItems items = items.map render := by
  induction items with
  | nil => rw [renderItems, List.map_nil]
  | cons item items ih => rw [renderItems, ih, List.map_cons]

theorem renderFields_eq_map (fields : List (Units × Json)) :
    renderFields fields = fields.map renderField := by
  induction fields with
  | nil => rw [renderFields, List.map_nil]
  | cons field fields ih =>
    obtain ⟨key, value⟩ := field
    rw [renderFields, ih, List.map_cons]
    rfl

end Json

/-! ## Lists of texts -/

section Lists

variable {α : Type*} {f : α → Units} {xs ys : List α} {s t : Units} {closing : CodeUnit}

/-- What may stand behind a text: a comma, a closing bracket or nothing. -/
def Stops (s : Units) : Prop :=
  ∀ c, s.head? = some c → c ∈ [unit ',', unit ']', unit '\x7d']

/-- **Read one way** up to what stops it. -/
def OneWay (f : α → Units) (x : α) : Prop :=
  ∀ y s t, Stops s → Stops t → f x ++ s = f y ++ t → x = y ∧ s = t

theorem joined_cons (text : Units) (texts : List Units) :
    joined (text :: texts) = text ++ texts.flatMap fun t => unit ',' :: t := by
  unfold joined
  induction texts generalizing text with
  | nil => simp [List.intercalate]
  | cons next texts ih =>
    rw [List.flatMap_cons, List.cons_append, ← ih next]
    simp [List.intercalate, List.intersperse]

theorem stops_rest (hclosing : closing ∈ [unit ',', unit ']', unit '\x7d']) (texts : List Units) :
    Stops ((texts.flatMap fun t => unit ',' :: t) ++ closing :: s) := by
  intro c hc
  cases texts with
  | nil =>
    obtain rfl := Option.some.inj hc
    exact hclosing
  | cons text texts =>
    obtain rfl := Option.some.inj hc
    exact List.mem_cons_self

/-- The texts behind the first one are read up to the closing bracket. -/
theorem rest_inj (hclosing : closing ∈ [unit ']', unit '\x7d']) (hway : ∀ x ∈ xs, OneWay f x)
    (h : ((xs.map f).flatMap fun t => unit ',' :: t) ++ closing :: s =
      ((ys.map f).flatMap fun t => unit ',' :: t) ++ closing :: t) : xs = ys ∧ s = t := by
  have hcomma : unit ',' ≠ closing := by
    rintro rfl
    exact absurd hclosing (by decide)
  have hstops := List.mem_cons_of_mem (unit ',') hclosing
  induction xs generalizing ys with
  | nil =>
    cases ys with
    | nil => exact ⟨rfl, (List.cons.inj h).2⟩
    | cons y ys => exact absurd (List.cons.inj h).1.symm hcomma
  | cons x xs ih =>
    cases ys with
    | nil => exact absurd (List.cons.inj h).1 hcomma
    | cons y ys =>
      simp only [List.map_cons, List.flatMap_cons, List.cons_append, List.append_assoc,
        List.cons.injEq, true_and] at h
      obtain ⟨rfl, hrest⟩ := hway x List.mem_cons_self y _ _ (stops_rest hstops _)
        (stops_rest hstops _) h
      obtain ⟨rfl, hst⟩ := ih (fun x hx => hway x (List.mem_cons_of_mem _ hx)) hrest
      exact ⟨rfl, hst⟩

/-- **A list of texts** is read up to its closing bracket. -/
theorem joined_inj (hclosing : closing ∈ [unit ']', unit '\x7d']) (hway : ∀ x ∈ xs, OneWay f x)
    (hopen : ∀ x, ∃ c, (f x).head? = some c ∧ c ≠ closing)
    (h : joined (xs.map f) ++ closing :: s = joined (ys.map f) ++ closing :: t) :
    xs = ys ∧ s = t := by
  have hne : ∀ x rest u v, f x ++ rest ++ u = closing :: v → False := by
    intro x rest u v heq
    obtain ⟨c, hc, hclose⟩ := hopen x
    cases hx : f x with
    | nil =>
      rw [hx] at hc
      cases hc
    | cons d l =>
      rw [hx] at hc heq
      obtain rfl := Option.some.inj hc
      exact hclose (List.cons.inj heq).1
  have hstops := List.mem_cons_of_mem (unit ',') hclosing
  cases xs with
  | nil =>
    cases ys with
    | nil => exact ⟨rfl, (List.cons.inj h).2⟩
    | cons y ys =>
      rw [List.map_cons, joined_cons] at h
      exact (hne _ _ _ _ h.symm).elim
  | cons x xs =>
    cases ys with
    | nil =>
      rw [List.map_cons, joined_cons] at h
      exact (hne _ _ _ _ h).elim
    | cons y ys =>
      rw [List.map_cons, List.map_cons, joined_cons, joined_cons, List.append_assoc,
        List.append_assoc] at h
      obtain ⟨rfl, hrest⟩ := hway x List.mem_cons_self y _ _ (stops_rest hstops _)
        (stops_rest hstops _) h
      obtain ⟨rfl, hst⟩ := rest_inj hclosing (fun x hx => hway x (List.mem_cons_of_mem _ hx)) hrest
      exact ⟨rfl, hst⟩

end Lists

/-! ## Trees -/

namespace Json

variable {x y : Json} {s t : Units}

/-- The kinds of trees. -/
inductive Kind
  | null | boolean | number | string | array | object
deriving DecidableEq

def kind : Json → Kind
  | .null => .null
  | .boolean _ => .boolean
  | .number _ => .number
  | .string _ => .string
  | .array _ => .array
  | .object _ => .object

/-- The kind of a tree whose text begins with a unit. -/
def opens (c : CodeUnit) : Kind :=
  if isNumberUnit c then .number
  else if c = unit 'n' then .null
  else if c = unit 't' ∨ c = unit 'f' then .boolean
  else if c = unit '"' then .string
  else if c = unit '[' then .array
  else .object

/-- **A text's first unit** tells the kind of its tree, and does not stop a text. -/
theorem head?_render (x : Json) : ∃ c, x.render.head? = some c ∧ opens c = x.kind ∧
    c ∉ [unit ',', unit ']', unit '\x7d'] := by
  cases x with
  | null => exact ⟨unit 'n', by rw [render]; rfl, rfl, by decide⟩
  | boolean value =>
    cases value
    · exact ⟨unit 'f', by rw [render]; rfl, rfl, by decide⟩
    · exact ⟨unit 't', by rw [render]; rfl, rfl, by decide⟩
  | number value =>
    rw [render]
    cases hcons : numberText value with
    | nil => exact absurd hcons (numberText_ne_nil value)
    | cons c rest =>
      have hunit : isNumberUnit c := isNumberUnit_of_mem (hcons ▸ List.mem_cons_self)
      refine ⟨c, rfl, ?_, fun hmem => ?_⟩
      · rw [opens, if_pos hunit]
        rfl
      · simp only [List.mem_cons, List.not_mem_nil, or_false] at hmem
        rcases hmem with rfl | rfl | rfl <;> exact absurd hunit (by decide)
  | string value => exact ⟨unit '"', by rw [render]; rfl, rfl, by decide⟩
  | array items => exact ⟨unit '[', by rw [render]; rfl, rfl, by decide⟩
  | object fields => exact ⟨unit '\x7b', by rw [render]; rfl, rfl, by decide⟩

theorem kind_eq (h : x.render ++ s = y.render ++ t) : x.kind = y.kind := by
  obtain ⟨c, hc, hx, -⟩ := head?_render x
  obtain ⟨d, hd, hy, -⟩ := head?_render y
  have hheads := congrArg List.head? h
  rw [List.head?_append, List.head?_append, hc, hd] at hheads
  rw [← hx, ← hy, Option.some.inj hheads]

/-- A quoted key and its value are read one way. -/
theorem oneWay_renderField {field : Units × Json} (h : OneWay render field.2) :
    OneWay renderField field := by
  intro other s t hs ht heq
  simp only [renderField, quoted, List.cons_append, List.append_assoc, List.nil_append,
    List.cons.injEq, true_and] at heq
  obtain ⟨hkey, hrest⟩ := quoteUnits_inj heq
  obtain ⟨hvalue, hst⟩ := h other.2 s t hs ht (List.cons.inj hrest).2
  exact ⟨Prod.ext hkey hvalue, hst⟩

/-- **A tree's text** is read one way. -/
theorem render_append_inj (x : Json) : OneWay render x := by
  induction x using Json.induction with
  | null =>
    intro y s t hs ht h
    have hkind := kind_eq h
    cases y <;> cases hkind
    exact ⟨rfl, List.append_cancel_left h⟩
  | boolean value =>
    intro y s t hs ht h
    have hkind := kind_eq h
    cases y <;> cases hkind
    rename_i other
    rw [render, render] at h
    cases value <;> cases other
    · exact ⟨rfl, List.append_cancel_left h⟩
    · exact absurd (List.cons.inj h).1 (by decide)
    · exact absurd (List.cons.inj h).1 (by decide)
    · exact ⟨rfl, List.append_cancel_left h⟩
  | number value =>
    intro y s t hs ht h
    have hkind := kind_eq h
    cases y <;> cases hkind
    rename_i other
    rw [render, render] at h
    have hstop : ∀ u, Stops u → u.head?.any isNumberUnit = false := by
      intro u hu
      cases u with
      | nil => rfl
      | cons c u =>
        have hmem := hu c rfl
        simp only [List.mem_cons, List.not_mem_nil, or_false] at hmem
        rcases hmem with rfl | rfl | rfl <;> rfl
    obtain ⟨htext, hst⟩ := append_inj_of_stops (fun c hc => isNumberUnit_of_mem hc)
      (fun c hc => isNumberUnit_of_mem hc) (hstop s hs) (hstop t ht) h
    exact ⟨congrArg Json.number (numberText_inj htext), hst⟩
  | string value =>
    intro y s t hs ht h
    have hkind := kind_eq h
    cases y <;> cases hkind
    rename_i other
    rw [render, render] at h
    simp only [quoted, List.cons_append, List.append_assoc, List.nil_append, List.cons.injEq,
      true_and] at h
    obtain ⟨rfl, hst⟩ := quoteUnits_inj h
    exact ⟨rfl, hst⟩
  | array items ih =>
    intro y s t hs ht h
    have hkind := kind_eq h
    cases y <;> cases hkind
    rename_i others
    simp only [render, renderItems_eq_map, List.cons_append, List.append_assoc, List.nil_append,
      List.cons.injEq, true_and] at h
    have hopen : ∀ z : Json, ∃ c, z.render.head? = some c ∧ c ≠ unit ']' := by
      intro z
      obtain ⟨c, hc, -, hstop⟩ := head?_render z
      refine ⟨c, hc, ?_⟩
      rintro rfl
      exact hstop (by decide)
    obtain ⟨rfl, hst⟩ := joined_inj (by decide) ih hopen h
    exact ⟨rfl, hst⟩
  | object fields ih =>
    intro y s t hs ht h
    have hkind := kind_eq h
    cases y <;> cases hkind
    rename_i others
    simp only [render, renderFields_eq_map, List.cons_append, List.append_assoc, List.nil_append,
      List.cons.injEq, true_and] at h
    have hopen : ∀ field : Units × Json, ∃ c, (renderField field).head? = some c ∧
        c ≠ unit '\x7d' := fun field => ⟨unit '"', rfl, by decide⟩
    obtain ⟨rfl, hst⟩ := joined_inj (by decide)
      (fun field hfield => oneWay_renderField (ih field hfield)) hopen h
    exact ⟨rfl, hst⟩

/-- **No two trees** have the same text. -/
theorem render_injective : Function.Injective render := by
  intro x y h
  have hnil : Stops [] := fun c hc => by cases hc
  refine (render_append_inj x y [] [] hnil hnil ?_).1
  rw [h]

end Json

end HoodSentry
