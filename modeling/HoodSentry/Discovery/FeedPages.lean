import HoodSentry.Common.JsonParse
import Mathlib.Data.Rat.Defs
/-!
# Feed pages

`packages/discovery-engine/src/pagination.ts`. A cursor is the text of an
object with a version, the offset of the next item and the query's
fingerprint. The base64url form of a text is a parameter: what it is read back
as, and what it is written as. Following the cursors from the first page ends,
and the pages are the list cut into pieces (`pages_partition`).
-/

namespace HoodSentry

namespace DiscoveryPages

/-! ## Cursors -/

/-- The object of a cursor. -/
def cursorTree (version offset fingerprint : Json) : Json :=
  .object [(units "version", version), (units "offset", offset),
    (units "fingerprint", fingerprint)]

/-- `encodeCursor`. -/
def encodeCursor (toBase64url : Units → Units) (offset : ℕ) (fingerprint : Units) : Units :=
  toBase64url (cursorTree (.number (.ofNat 1)) (.number (.ofNat offset))
    (.string fingerprint)).render

/-- The value of a field, none where it is undefined. -/
def fieldOf (tree : Json) (key : String) : Option Json :=
  match tree with
  | .object fields => (fields.find? fun field => field.1 = units key).map Prod.snd
  | _ => none

/-- `cursorSchema.parse`: the offset and the fingerprint, none where it
throws. -/
def parseCursor (tree : Json) : Option (ℕ × Units) :=
  match fieldOf tree "version", fieldOf tree "offset", fieldOf tree "fingerprint" with
  | some (.number version), some (.number offset), some (.string fingerprint) =>
    if version.natural? = some 1 ∧ fingerprint ≠ [] then
      offset.natural?.map fun offset => (offset, fingerprint)
    else none
  | _, _, _ => none

/-- `decodeCursor`. -/
def decodeCursor (fromBase64url : Units → Units) (cursor : Option Units) (fingerprint : Units) :
    Except String ℕ :=
  match cursor with
  | none => .ok 0
  | some cursor =>
    match (Json.parse (fromBase64url cursor)).bind parseCursor with
    | none => .error "Cursor is malformed"
    | some (offset, issued) =>
      if issued = fingerprint then .ok offset
      else .error "Cursor does not match the current query"

/-! ## Pages -/

structure DiscoveryPage (α : Type*) where
  data : List α
  nextCursor : Option Units
  hasMore : Bool

section Model

variable {α : Type*} (toBase64url fromBase64url : Units → Units) (items : List α)

/-- `paginate`. -/
def paginate (limit : ℚ) (cursor : Option Units) (fingerprint : Units) :
    Except String (DiscoveryPage α) :=
  if limit.isInt = true ∧ 1 ≤ limit ∧ limit ≤ 100 then
    match decodeCursor fromBase64url cursor fingerprint with
    | .error message => .error message
    | .ok offset =>
      let data := (items.drop offset).take limit.num.toNat
      let nextOffset := offset + data.length
      let hasMore := decide (nextOffset < items.length)
      .ok ⟨data, if hasMore then some (encodeCursor toBase64url nextOffset fingerprint) else none,
        hasMore⟩
  else .error "Page limit is outside the supported range"

/-- **Following the cursors**, a page after the other up to one without a
cursor; the limits are those of the pages. -/
inductive Follows (limits : ℕ → ℕ) (fingerprint : Units) :
    ℕ → Option Units → List (List α) → Prop
  | last {k : ℕ} {cursor : Option Units} {page : DiscoveryPage α}
      (hpage : paginate toBase64url fromBase64url items (limits k) cursor fingerprint = .ok page)
      (hnext : page.nextCursor = none) : Follows limits fingerprint k cursor [page.data]
  | more {k : ℕ} {cursor : Option Units} {page : DiscoveryPage α} {next : Units}
      {rest : List (List α)}
      (hpage : paginate toBase64url fromBase64url items (limits k) cursor fingerprint = .ok page)
      (hnext : page.nextCursor = some next)
      (hrest : Follows limits fingerprint (k + 1) (some next) rest) :
      Follows limits fingerprint k cursor (page.data :: rest)

end Model

/-! ## What a cursor is read back as -/

variable {α : Type*} {toBase64url fromBase64url : Units → Units} {items : List α}
variable {fingerprint : Units} {offset : ℕ}

theorem distinctKeys_cursorTree {version given issued : Json} (hversion : version.distinctKeys)
    (hgiven : given.distinctKeys) (hissued : issued.distinctKeys) :
    (cursorTree version given issued).distinctKeys := by
  have hkeys : ([units "version", units "offset", units "fingerprint"] : List Units).Nodup := by
    decide +kernel
  simp [cursorTree, Json.distinctKeys, Json.distinctFields, hversion, hgiven, hissued, hkeys]

/-- What the schema lets through. -/
theorem parseCursor_eq_some {tree : Json} {issued : Units} :
    parseCursor tree = some (offset, issued) ↔
      (∃ version, fieldOf tree "version" = some (.number version) ∧ version.natural? = some 1) ∧
      (∃ given, fieldOf tree "offset" = some (.number given) ∧ given.natural? = some offset) ∧
      fieldOf tree "fingerprint" = some (.string issued) ∧ issued ≠ [] := by
  constructor
  · intro h
    unfold parseCursor at h
    split at h
    · rename_i version given fingerprint hversion hgiven hissued
      split at h
      · rename_i hvalid
        obtain ⟨n, hn, hpair⟩ := Option.map_eq_some_iff.mp h
        obtain ⟨rfl, rfl⟩ := Prod.mk.inj hpair
        exact ⟨⟨version, hversion, hvalid.1⟩, ⟨given, hgiven, hn⟩, hissued, hvalid.2⟩
      · cases h
    · cases h
  · rintro ⟨⟨version, hversion, hone⟩, ⟨given, hgiven, hoffset⟩, hissued, hne⟩
    rw [parseCursor, hversion, hgiven, hissued]
    dsimp only
    rw [if_pos ⟨hone, hne⟩, hoffset]
    rfl

/-- A cursor is accepted if the schema lets it through and it is the query's. -/
theorem decodeCursor_eq_ok {cursor : Units} :
    decodeCursor fromBase64url (some cursor) fingerprint = .ok offset ↔
      (Json.parse (fromBase64url cursor)).bind parseCursor = some (offset, fingerprint) := by
  rw [decodeCursor]
  cases h : (Json.parse (fromBase64url cursor)).bind parseCursor with
  | none => exact ⟨nofun, nofun⟩
  | some read =>
    obtain ⟨n, issued⟩ := read
    dsimp only
    split
    · rename_i hissued
      rw [hissued, Except.ok.injEq, Option.some.injEq, Prod.mk.injEq]
      exact ⟨fun h => ⟨h, rfl⟩, And.left⟩
    · rename_i hissued
      refine ⟨nofun, fun h => ?_⟩
      exact absurd (Prod.mk.inj (Option.some.inj h)).2 hissued

theorem fieldOf_cursorTree (version given issued : Json) :
    fieldOf (cursorTree version given issued) "version" = some version ∧
      fieldOf (cursorTree version given issued) "offset" = some given ∧
      fieldOf (cursorTree version given issued) "fingerprint" = some issued := by
  have hversion : units "version" ≠ units "offset" := by decide +kernel
  have hversion' : units "version" ≠ units "fingerprint" := by decide +kernel
  have hoffset : units "offset" ≠ units "fingerprint" := by decide +kernel
  refine ⟨?_, ?_, ?_⟩ <;> simp [fieldOf, cursorTree, hversion, hversion', hoffset]

section Round

variable (hround : ∀ tree : Json, fromBase64url (toBase64url tree.render) = tree.render)
include hround

/-- **An altered cursor** is accepted if its fields are those of a cursor of the
query, and only then. -/
theorem decodeCursor_tree {tree : Json} (htree : tree.distinctKeys) :
    decodeCursor fromBase64url (some (toBase64url tree.render)) fingerprint = .ok offset ↔
      (∃ version, fieldOf tree "version" = some (.number version) ∧ version.natural? = some 1) ∧
      (∃ given, fieldOf tree "offset" = some (.number given) ∧ given.natural? = some offset) ∧
      fieldOf tree "fingerprint" = some (.string fingerprint) ∧ fingerprint ≠ [] := by
  rw [decodeCursor_eq_ok, hround, Json.parse_render htree, Option.bind_some, parseCursor_eq_some]

/-- **A cursor of the query** is read back as its offset. -/
theorem decodeCursor_encodeCursor (hfingerprint : fingerprint ≠ []) (n : ℕ) :
    decodeCursor fromBase64url (some (encodeCursor toBase64url n fingerprint)) fingerprint =
      .ok n := by
  obtain ⟨hversion, hoffset, hissued⟩ := fieldOf_cursorTree (.number (.ofNat 1))
    (.number (.ofNat n)) (.string fingerprint)
  refine (decodeCursor_tree hround (distinctKeys_cursorTree rfl rfl rfl)).mpr ?_
  exact ⟨⟨_, hversion, natural?_ofNat 1⟩, ⟨_, hoffset, natural?_ofNat n⟩, hissued, hfingerprint⟩

/-- One of another query is not accepted. -/
theorem decodeCursor_other {other : Units} (hne : other ≠ fingerprint) (n : ℕ) :
    decodeCursor fromBase64url (some (encodeCursor toBase64url n other)) fingerprint ≠
      .ok offset := by
  intro h
  have hissued := (fieldOf_cursorTree (.number (.ofNat 1)) (.number (.ofNat n)) (.string other)).2.2
  have hfields := (decodeCursor_tree hround (distinctKeys_cursorTree rfl rfl rfl)).mp h
  have hsame := hissued.symm.trans hfields.2.2.1
  exact hne (Json.string.inj (Option.some.inj hsame))

end Round

/-! ## Following the cursors -/

section Following

variable (limits : ℕ → ℕ) (hlimits : ∀ k, 1 ≤ limits k ∧ limits k ≤ 100)
include hlimits

/-- A page from an offset. -/
theorem paginate_eq {cursor : Option Units} (k : ℕ)
    (hcursor : decodeCursor fromBase64url cursor fingerprint = .ok offset) :
    paginate toBase64url fromBase64url items (limits k) cursor fingerprint =
      .ok ⟨(items.drop offset).take (limits k),
        if offset + limits k < items.length then
          some (encodeCursor toBase64url (offset + limits k) fingerprint) else none,
        decide (offset + limits k < items.length)⟩ := by
  obtain ⟨hone, hhundred⟩ := hlimits k
  have hlimit : (limits k : ℚ).isInt = true ∧ 1 ≤ (limits k : ℚ) ∧ (limits k : ℚ) ≤ 100 :=
    ⟨rfl, by exact_mod_cast hone, by exact_mod_cast hhundred⟩
  have hlength : ((items.drop offset).take (limits k)).length =
      min (limits k) (items.length - offset) := by
    rw [List.length_take, List.length_drop]
  have hmore : offset + min (limits k) (items.length - offset) < items.length ↔
      offset + limits k < items.length := by omega
  rw [paginate, if_pos hlimit, hcursor]
  dsimp only
  rw [Rat.num_natCast, Int.toNat_natCast, hlength]
  by_cases h : offset + limits k < items.length
  · have hall : min (limits k) (items.length - offset) = limits k := by omega
    rw [hall]
    simp only [h, decide_true, if_true]
  · have hnone := mt hmore.mp h
    simp only [h, hnone, decide_false, if_false]
    rfl

variable (hround : ∀ tree : Json, fromBase64url (toBase64url tree.render) = tree.render)
variable (hfingerprint : fingerprint ≠ [])
include hround hfingerprint

/-- **From every offset the cursors end**, and the pages are the rest. -/
theorem exists_follows (k : ℕ) {cursor : Option Units}
    (hcursor : decodeCursor fromBase64url cursor fingerprint = .ok offset) :
    ∃ pages, Follows toBase64url fromBase64url items limits fingerprint k cursor pages ∧
      pages.flatten = items.drop offset := by
  induction hleft : items.length - offset using Nat.strong_induction_on
    generalizing k cursor offset with
  | _ n ih =>
    have hpage := @paginate_eq α toBase64url _ items _ _ limits hlimits _ k hcursor
    by_cases hmore : offset + limits k < items.length
    · have hpos := (hlimits k).1
      have hnext := decodeCursor_encodeCursor hround hfingerprint (offset + limits k)
      obtain ⟨rest, hrest, hflatten⟩ := ih _ (by omega) (k + 1) hnext rfl
      rw [if_pos hmore] at hpage
      refine ⟨_, .more hpage rfl hrest, ?_⟩
      rw [List.flatten_cons, hflatten, ← List.drop_drop, List.take_append_drop]
    · rw [if_neg hmore] at hpage
      refine ⟨_, .last hpage rfl, ?_⟩
      rw [List.flatten_singleton, List.take_of_length_le]
      rw [List.length_drop]
      omega

end Following

/-- The pages of one run are those of every run. -/
theorem Follows.eq {limits : ℕ → ℕ} {k : ℕ} {cursor : Option Units} {pages others : List (List α)}
    (h : Follows toBase64url fromBase64url items limits fingerprint k cursor pages)
    (h' : Follows toBase64url fromBase64url items limits fingerprint k cursor others) :
    pages = others := by
  induction h generalizing others with
  | last hpage hnext =>
    cases h' with
    | last hpage' hnext' =>
      cases hpage.symm.trans hpage'
      rfl
    | more hpage' hnext' hrest' =>
      cases hpage.symm.trans hpage'
      cases hnext.symm.trans hnext'
  | more hpage hnext hrest ih =>
    cases h' with
    | last hpage' hnext' =>
      cases hpage.symm.trans hpage'
      cases hnext.symm.trans hnext'
    | more hpage' hnext' hrest' =>
      cases hpage.symm.trans hpage'
      cases hnext.symm.trans hnext'
      rw [ih hrest']

/-- **The pages are the list cut into pieces**, and no other cursor is accepted
than one of the query with an offset in it. -/
theorem pages_partition
    (hround : ∀ tree : Json, fromBase64url (toBase64url tree.render) = tree.render)
    (items : List α) (hfingerprint : fingerprint ≠ []) (limits : ℕ → ℕ)
    (hlimits : ∀ k, 1 ≤ limits k ∧ limits k ≤ 100) :
    (∃ pages, Follows toBase64url fromBase64url items limits fingerprint 0 none pages) ∧
      (∀ pages, Follows toBase64url fromBase64url items limits fingerprint 0 none pages →
        pages.flatten = items) ∧
      (∀ other n offset, other ≠ fingerprint →
        decodeCursor fromBase64url (some (encodeCursor toBase64url n other)) fingerprint ≠
          .ok offset) ∧
      ∀ tree : Json, tree.distinctKeys → ∀ offset,
        decodeCursor fromBase64url (some (toBase64url tree.render)) fingerprint = .ok offset →
        (∃ version, fieldOf tree "version" = some (.number version) ∧
          version.natural? = some 1) ∧
        (∃ given, fieldOf tree "offset" = some (.number given) ∧ given.natural? = some offset) ∧
        fieldOf tree "fingerprint" = some (.string fingerprint) := by
  have hstart : decodeCursor fromBase64url none fingerprint = .ok 0 := rfl
  obtain ⟨pages, hpages, hflatten⟩ := @exists_follows α toBase64url fromBase64url items
    fingerprint 0 limits hlimits hround hfingerprint 0 none hstart
  refine ⟨⟨pages, hpages⟩, fun others hothers => ?_, fun other n offset hne => ?_,
    fun tree htree offset h => ?_⟩
  · rw [← hpages.eq hothers, hflatten, List.drop_zero]
  · exact decodeCursor_other hround hne n
  · obtain ⟨hversion, hoffset, hissued, -⟩ := (decodeCursor_tree hround htree).mp h
    exact ⟨hversion, hoffset, hissued⟩

/-! ## One run -/

/-- What the cursor of the second page of a query says. -/
def secondText : Units := units "\x7b\"version\":1,\"offset\":2,\"fingerprint\":\"ab\"\x7d"

def secondCursor : Units := units "eyJ2ZXJzaW9uIjoxLCJvZmZzZXQiOjIsImZpbmdlcnByaW50IjoiYWIifQ"

/-- `toString('base64url')` on that text; other texts keep their own form. -/
def tabledBase64url (text : Units) : Units :=
  if text = secondText then secondCursor else unit 'x' :: text

def readTabled (cursor : Units) : Units :=
  if cursor = secondCursor then secondText else cursor.tail

theorem readTabled_tabledBase64url (text : Units) : readTabled (tabledBase64url text) = text := by
  rw [tabledBase64url]
  split
  · rename_i h
    rw [readTabled, if_pos rfl, h]
  · rw [readTabled, if_neg, List.tail_cons]
    intro h
    have hfirst : secondCursor.head? = some (unit 'e') := by decide +kernel
    rw [← h, List.head?_cons] at hfirst
    exact absurd hfirst (by decide)

example : encodeCursor tabledBase64url 2 (units "ab") = secondCursor := by decide +kernel

/-- Three items on pages of two. -/
theorem pages_partition_three :
    (∃ pages, Follows tabledBase64url readTabled [1, 2, 3] (fun _ => 2) (units "ab") 0 none pages) ∧
      (∀ pages,
        Follows tabledBase64url readTabled [1, 2, 3] (fun _ => 2) (units "ab") 0 none pages →
          pages.flatten = [1, 2, 3]) ∧
      (∀ other n offset, other ≠ units "ab" →
        decodeCursor readTabled (some (encodeCursor tabledBase64url n other)) (units "ab") ≠
          .ok offset) ∧
      ∀ tree : Json, tree.distinctKeys → ∀ offset,
        decodeCursor readTabled (some (tabledBase64url tree.render)) (units "ab") = .ok offset →
        (∃ version, fieldOf tree "version" = some (.number version) ∧
          version.natural? = some 1) ∧
        (∃ given, fieldOf tree "offset" = some (.number given) ∧ given.natural? = some offset) ∧
        fieldOf tree "fingerprint" = some (.string (units "ab")) :=
  pages_partition (fun tree => readTabled_tabledBase64url tree.render) [1, 2, 3]
    (by decide +kernel) (fun _ => 2) (fun _ => by decide)

end DiscoveryPages

end HoodSentry
