import HoodSentry.Providers.AddressTexts
/-!
# Which addresses are judged by their value

An IPv4 address has one text. An IPv6 address is judged by how its text begins:
that tells the first group where it has four hex digits, and is misled by the
spellings of a group with fewer, by a first group of zeros, and by the groups
behind the first (`judged_iff`).
-/

namespace HoodSentry

namespace PinnedHttps

/-! ## The verdict on an accepted text -/

section Verdict

variable {address text : List Char} {words : List (List Char)} {groups : List ℕ}

/-- A text's words between colons, and its zone. -/
structure Spelling (text : List Char) (words : List (List Char)) (zone : List Char) : Prop where
  text_eq : text = [':'].intercalate words ++ zone
  zone_head : ∀ c, zone.head? = some c → c = '%'
  free : ∀ word ∈ words, ':' ∉ word ∧ '%' ∉ word

theorem exists_spelling (h : parseIPv6 text = some groups) :
    ∃ words zone, parseGroups words = some groups ∧ Spelling text words zone := by
  unfold parseIPv6 at h
  split at h
  · refine ⟨_, text.dropWhile (· ≠ '%'), h, ?_, ?_, ?_⟩
    · rw [List.intercalate_splitOn, List.takeWhile_append_dropWhile]
    · intro c hc
      have hhead := List.head?_dropWhile_not (· ≠ '%') text
      rw [hc] at hhead
      simpa using hhead
    · intro word hword
      obtain ⟨hcolon, hmem⟩ := of_mem_splitOn hword
      refine ⟨hcolon, fun hpercent => ?_⟩
      have hpos := List.mem_takeWhile_imp (hmem '%' hpercent)
      simp at hpos
  · cases h

theorem toLowerCase_append (s t : List Char) :
    toLowerCase (s ++ t) = toLowerCase s ++ toLowerCase t := List.map_append

/-- Words after the first one begin with a colon. -/
theorem intercalate_cons (word : List Char) (rest : List (List Char)) (zone : List Char)
    (hzone : ∀ c, zone.head? = some c → c = '%') :
    ∃ s, [':'].intercalate (word :: rest) ++ zone = word ++ s ∧ (s = [] → rest = []) ∧
      ∀ c, s.head? = some c → (c = ':' ∧ rest ≠ []) ∨ c = '%' := by
  cases rest with
  | nil => exact ⟨zone, by simp, fun _ => rfl, fun c hc => Or.inr (hzone c hc)⟩
  | cons next rest =>
    refine ⟨':' :: ([':'].intercalate (next :: rest) ++ zone), ?_, fun h => ?_, fun c hc => ?_⟩
    · rw [List.intercalate_cons_cons]
      simp
    · exact absurd h (List.cons_ne_nil _ _)
    · exact Or.inl ⟨(Option.some.inj hc).symm, List.cons_ne_nil _ _⟩

theorem head?_toLowerCase {s : List Char} {c : Char} (h : (toLowerCase s).head? = some c) :
    ∃ d, s.head? = some d ∧ d.toLower = c := by
  rw [toLowerCase, List.head?_map] at h
  exact Option.map_eq_some_iff.mp h

/-- **A word before a colon**, in a text that goes on with a colon, a zone or nothing. -/
theorem word_of_lead {p q word s : List Char} {rest : List (List Char)} (hp : ':' ∉ p)
    (hpercent : '%' ∉ p) (hword : ':' ∉ word)
    (hs : ∀ c, s.head? = some c → (c = ':' ∧ rest ≠ []) ∨ c = '%')
    (h : p ++ ':' :: q <+: toLowerCase (word ++ s)) :
    toLowerCase word = p ∧ rest ≠ [] ∧ ':' :: q <+: toLowerCase s := by
  have hhead : ∀ c, (toLowerCase s).head? = some c → (c = ':' ∧ rest ≠ []) ∨ c = '%' := by
    intro c hc
    obtain ⟨d, hd, rfl⟩ := head?_toLowerCase hc
    rcases hs d hd with ⟨rfl, hrest⟩ | rfl
    · exact Or.inl ⟨rfl, hrest⟩
    · exact Or.inr rfl
  rw [toLowerCase_append] at h
  obtain ⟨hlower, hq⟩ := prefix_colon hp (colon_not_mem_lower hword) (fun c hc => by
    rcases hhead c hc with ⟨rfl, -⟩ | rfl
    · exact hp
    · exact hpercent) h
  refine ⟨hlower, ?_, hq⟩
  cases hcons : toLowerCase s with
  | nil =>
    rw [hcons] at hq
    exact absurd (List.prefix_nil.mp hq) (List.cons_ne_nil _ _)
  | cons c rest' =>
    rw [hcons] at hq hhead
    rcases hhead c rfl with ⟨-, hrest⟩ | rfl
    · exact hrest
    · exact absurd (List.cons_prefix_cons.mp hq).1 (by decide)

theorem isPublicAddress_v6 (h4 : parseIPv4 address = none) (h6 : parseIPv6 address = some groups) :
    isPublicAddress address =
      if startsWith (toLowerCase address) "::ffff:" then
        isPublicAddress ((toLowerCase address).drop 7)
      else !beginsPrivate (toLowerCase address) := by
  have hsix : isIP address = 6 := by
    rw [isIP, h4, h6]
    rfl
  rw [isPublicAddress, if_neg (by rw [hsix]; decide), if_neg (by rw [hsix]; decide)]
  by_cases hstart : startsWith (toLowerCase address) "::ffff:"
  · rw [dif_pos hstart, if_pos hstart]
  · rw [dif_neg hstart, if_neg hstart]

/-- The digits of a word are told by its text in lower case. -/
theorem Segment.value_of_lower {word : List Char} {group : ℕ} {digits other : List ℕ}
    (h : Segment word group digits) (hother : ∀ digit ∈ other, digit < 16)
    (hlower : toLowerCase word = hexText other) : group = ofDigits 16 other := by
  have hchars := h.lower.symm.trans hlower
  have hdigits : (hexText digits).mapM hexDigit = (hexText other).mapM hexDigit := by
    rw [hexText, hchars]
  rw [mapM_hexText h.bound, mapM_hexText hother] at hdigits
  rw [h.value, Option.some.inj hdigits]

end Verdict

/-! ## Well-spelled addresses -/

section WellSpelled

variable {address : List Char} {words : List (List Char)} {groups right : List ℕ} {zone : List Char}

/-- The first group is a private one of four digits. -/
def PrivateFirst (groups : List ℕ) : Prop :=
  ∃ group others, groups = group :: others ∧ PrivateGroup group

/-- **A text that begins with a group** is judged by it, unless it is misjudged. -/
theorem isPublicAddress_leads (h4 : parseIPv4 address = none)
    (h6 : parseIPv6 address = some groups) (hspell : Spelling address words zone)
    (hleads : Leads words groups) (hwell : ¬Misjudged groups) :
    isPublicAddress address = true ↔ ¬PrivateFirst groups := by
  obtain ⟨word, next, rest, group, others, hwords, hsegment, hgroups, hsecond⟩ := hleads
  subst hwords
  subst hgroups
  obtain ⟨digits, hseg⟩ := exists_segment hsegment
  have hfree := hspell.free
  obtain ⟨s, hs, -, hhead⟩ := intercalate_cons next rest zone hspell.zone_head
  have htext : address = word ++ ':' :: (next ++ s) := by
    rw [hspell.text_eq, List.intercalate_cons_cons, List.append_assoc, List.append_assoc, hs]
    rfl
  have hlower : toLowerCase address = hexText digits ++ ':' :: toLowerCase (next ++ s) := by
    rw [htext, toLowerCase_append, hseg.lower]
    rfl
  have hmapped : startsWith (toLowerCase address) "::ffff:" = false := by
    rw [hlower]
    exact not_mapped_hexText hseg
  have hdocument : ¬"2001:db8:".toList <+: toLowerCase address := by
    intro hstart
    have hfirst := @word_of_lead "2001".toList "db8:".toList word (':' :: (next ++ s)) [next]
      (by decide) (by decide) (hfree word List.mem_cons_self).1
      (fun c hc => Or.inl ⟨(Option.some.inj hc).symm, List.cons_ne_nil _ _⟩) (htext ▸ hstart)
    have hbehind : "db8".toList ++ ':' :: [] <+: toLowerCase (next ++ s) :=
      (List.cons_prefix_cons.mp hfirst.2.2).2
    obtain ⟨hnext, hrest, -⟩ := word_of_lead (by decide) (by decide)
      (hfree next (List.mem_cons_of_mem _ List.mem_cons_self)).1 hhead hbehind
    have hne : next ≠ [] := by
      rintro rfl
      cases hnext
    obtain ⟨found, behind, rfl, hfound⟩ := hsecond hne hrest
    obtain ⟨digits', hseg'⟩ := exists_segment hfound
    have hgroup := @Segment.value_of_lower word group digits [2, 0, 0, 1] hseg (by decide) hfirst.1
    have hfoundeq := @Segment.value_of_lower next found digits' [13, 11, 8] hseg' (by decide) hnext
    rw [show ofDigits 16 [2, 0, 0, 1] = 0x2001 from rfl] at hgroup
    rw [show ofDigits 16 [13, 11, 8] = 0xDB8 from rfl] at hfoundeq
    subst hgroup
    subst hfoundeq
    exact hwell .documentation
  have hbegins : beginsPrivate (toLowerCase address) = true ↔ PrivateStart digits := by
    rw [hlower, beginsPrivate_hexText hseg, ← hlower]
    exact or_iff_left hdocument
  have hstart : PrivateStart digits ↔ PrivateFirst (group :: others) := by
    constructor
    · intro h
      rcases group_of_privateStart hseg h with hgroup | hshort
      · exact ⟨group, others, rfl, hgroup⟩
      · exact absurd (.short hshort) hwell
    · rintro ⟨first, behind, heq, hgroup⟩
      obtain ⟨rfl, -⟩ := List.cons.inj heq
      exact privateStart_of_group hseg hgroup
  rw [isPublicAddress_v6 h4 h6, if_neg (by rw [hmapped]; decide), Bool.not_eq_true',
    Bool.eq_false_iff, Ne, hbegins, hstart]

/-- The groups behind `::` that have a text. -/
theorem readRight_word {word : List Char} {rest : List (List Char)} {digits : List ℕ}
    (h : readRight (word :: rest) = some right) (hbound : ∀ digit ∈ digits, digit < 16)
    (hne : digits ≠ []) (hlength : digits.length ≤ 4) (hlower : toLowerCase word = hexText digits) :
    ∃ others, right = ofDigits 16 digits :: others ∧ (rest ≠ [] ↔ others ≠ []) := by
  have hsegment := v6Segment_of_lower hbound hne hlength hlower
  have hword := ne_nil_of_v6Segment hsegment
  rw [readRight, if_neg fun heq => hword (List.cons.inj heq).1] at h
  rcases readGroups_cases h with ⟨last, hwords, hlast⟩ | ⟨first, behind, group, others, hwords,
    hbehind, hgroup, hothers, rfl⟩
  · obtain ⟨rfl, rfl⟩ := List.cons.inj hwords
    rw [lastGroups, hsegment] at hlast
    exact ⟨[], (Option.some.inj hlast).symm, fun h => absurd rfl h, fun h => absurd rfl h⟩
  · obtain ⟨rfl, rfl⟩ := List.cons.inj hwords
    rw [hsegment] at hgroup
    exact ⟨others, by rw [Option.some.inj hgroup], fun _ => (readGroups_spec hothers).1,
      fun _ => hbehind⟩

/-- **A text that begins with `::`** is public, unless it is misjudged. -/
theorem isPublicAddress_colons {rest : List (List Char)} (h4 : parseIPv4 address = none)
    (h6 : parseIPv6 address = some (List.replicate (8 - right.length) 0 ++ right))
    (hspell : Spelling address ([] :: [] :: rest) zone) (hright : readRight rest = some right)
    (hlength : right.length ≤ 7)
    (hwell : ¬Misjudged (List.replicate (8 - right.length) 0 ++ right)) :
    isPublicAddress address = true := by
  cases rest with
  | nil => cases hright
  | cons word rest =>
    have hfree := hspell.free word (List.mem_cons_of_mem _ (List.mem_cons_of_mem _
      List.mem_cons_self))
    obtain ⟨s, hs, hend, hhead⟩ := intercalate_cons word rest zone hspell.zone_head
    have htext : address = ':' :: ':' :: (word ++ s) := by
      rw [hspell.text_eq, List.intercalate_cons_cons, List.intercalate_cons_cons]
      show ':' :: ':' :: ([':'].intercalate (word :: rest) ++ zone) = _
      rw [hs]
    have hlower : toLowerCase address = ':' :: ':' :: toLowerCase (word ++ s) := by
      rw [htext]
      rfl
    -- the zeros are followed by `ffff` only where the address is misjudged
    have hmapped : startsWith (toLowerCase address) "::ffff:" = false := by
      refine Bool.eq_false_iff.mpr fun hstart => ?_
      have hbehind : "ffff".toList ++ ':' :: [] <+: toLowerCase (word ++ s) := by
        rw [startsWith_iff, hlower] at hstart
        exact (List.cons_prefix_cons.mp (List.cons_prefix_cons.mp hstart).2).2
      obtain ⟨hword, hrest, -⟩ := word_of_lead (by decide) (by decide) hfree.1 hhead hbehind
      obtain ⟨others, hothers, hne⟩ := @readRight_word _ word rest [15, 15, 15, 15] hright
        (by decide) (by decide) (by decide) hword
      have hpos := List.length_pos_iff.mpr (hne.mp hrest)
      rw [hothers] at hwell hlength
      rw [List.length_cons] at hlength hwell
      exact hwell (.ones (by omega) (by omega))
    have hempty : ∀ t : List Char, toLowerCase address = ':' :: ':' :: t → ':' ∉ t → '%' ∉ t →
        rest = [] ∧ toLowerCase word = t := by
      intro t ht hcolon hpercent
      rw [hlower] at ht
      have heq := (List.cons.inj (List.cons.inj ht).2).2
      rw [toLowerCase_append] at heq
      have hnil : s = [] := by
        cases s with
        | nil => rfl
        | cons c s =>
          have hmem : c.toLower ∈ t := by
            rw [← heq]
            exact List.mem_append_right _ List.mem_cons_self
          rcases hhead c rfl with ⟨rfl, -⟩ | rfl
          · exact absurd hmem hcolon
          · exact absurd hmem hpercent
      rw [hnil] at heq
      exact ⟨hend hnil, by rw [← heq]; simp [toLowerCase]⟩
    have hunspecified : toLowerCase address ≠ "::".toList := by
      intro heq
      obtain ⟨rfl, hword⟩ := hempty [] heq List.not_mem_nil List.not_mem_nil
      obtain rfl : word = [] := List.map_eq_nil_iff.mp hword
      obtain rfl : [] = right := Option.some.inj hright
      exact hwell (@Misjudged.compatible 0 0 ⟨(ipv4 0 0 0 0, 8), by decide, by decide⟩)
    have hloopback : toLowerCase address ≠ "::1".toList := by
      intro heq
      obtain ⟨rfl, hword⟩ := hempty ['1'] heq (by decide) (by decide)
      obtain ⟨others, hothers, hne⟩ := @readRight_word _ word [] [1] hright (by decide)
        (by decide) (by decide) hword
      obtain rfl : others = [] := by
        by_contra hothers
        exact hne.mpr hothers rfl
      rw [hothers] at hwell
      exact hwell (@Misjudged.compatible 0 1 ⟨(ipv4 0 0 0 0, 8), by decide, by decide⟩)
    have hbegins : beginsPrivate (toLowerCase address) = false := by
      rw [beginsPrivate, decide_eq_false hunspecified, decide_eq_false hloopback, hlower]
      rfl
    rw [isPublicAddress_v6 h4 h6, if_neg (by rw [hmapped]; decide), hbegins]
    rfl

end WellSpelled

/-! ## Spellings -/

section Spellings

variable {words : List (List Char)} {text : List Char}
  {groups digits others : List ℕ}

theorem mem_intercalate {c : Char} (h : c ∈ [':'].intercalate words) :
    c = ':' ∨ ∃ word ∈ words, c ∈ word := by
  induction words with
  | nil => cases h
  | cons word rest ih =>
    cases rest with
    | nil =>
      rw [List.intercalate_singleton] at h
      exact Or.inr ⟨word, List.mem_cons_self, h⟩
    | cons next rest =>
      rw [List.intercalate_cons_cons, List.mem_append, List.mem_append, List.mem_singleton] at h
      rcases h with (h | h) | h
      · exact Or.inr ⟨word, List.mem_cons_self, h⟩
      · exact Or.inl h
      · exact (ih h).imp_right fun ⟨found, hfound, hc⟩ =>
          ⟨found, List.mem_cons_of_mem word hfound, hc⟩

theorem parseIPv4_of_not_mem (h : '.' ∉ text) : parseIPv4 text = none := by
  have hsplit : text.splitOn '.' = [text] := by
    rw [List.splitOn_eq_splitOnP]
    exact List.splitOnP_eq_singleton fun c hc => beq_false_of_ne fun heq => h (heq ▸ hc)
  cases hparse : parseIPv4 text with
  | none => rfl
  | some bytes =>
    obtain ⟨found, hfound, hsome⟩ := Option.bind_eq_some_iff.mp hparse
    rw [hsplit] at hfound
    obtain ⟨byte, rest, -, hrest, rfl⟩ := mapM_cons_eq_some.mp hfound
    obtain rfl : [] = rest := Option.some.inj hrest
    cases hsome

/-- Words of hex digits are joined to a text with these words. -/
def Plain (words : List (List Char)) : Prop :=
  ∀ word ∈ words, ':' ∉ word ∧ '%' ∉ word ∧ '.' ∉ word

theorem parse_words (h : Plain words) (hne : words ≠ []) :
    parseIPv4 ([':'].intercalate words) = none ∧
      parseIPv6 ([':'].intercalate words) = parseGroups words := by
  have hfree : ∀ c, c ≠ ':' → (∀ word ∈ words, c ∉ word) → c ∉ [':'].intercalate words := by
    intro c hc hwords hmem
    rcases mem_intercalate hmem with rfl | ⟨word, hword, hin⟩
    · exact hc rfl
    · exact hwords word hword hin
  have hpercent := hfree '%' (by decide) fun word hword => (h word hword).2.1
  have hall : ∀ c ∈ [':'].intercalate words, decide (c ≠ '%') = true := fun c hc =>
    decide_eq_true fun heq => hpercent (heq ▸ hc)
  refine ⟨parseIPv4_of_not_mem (hfree '.' (by decide) fun word hword => (h word hword).2.2), ?_⟩
  rw [parseIPv6, List.takeWhile_eq_self_iff.mpr hall, List.dropWhile_eq_nil_iff.mpr hall,
    List.splitOn_intercalate ':' (fun word hword => (h word hword).1) hne]
  rfl

theorem denotes_words (h : Plain words) (hgroups : parseGroups words = some groups) :
    denotes ([':'].intercalate words) = some (.v6 groups) := by
  have hne : words ≠ [] := by
    rintro rfl
    cases hgroups
  rw [denotes, (parse_words h hne).1, (parse_words h hne).2, hgroups]
  rfl

theorem toLowerCase_hexText (h : ∀ digit ∈ digits, digit < 16) :
    toLowerCase (hexText digits) = hexText digits := by
  rw [toLowerCase, hexText, List.map_map]
  exact List.map_congr_left fun digit hdigit => toLower_hexChar (h digit hdigit)

theorem toLowerCase_intercalate (words : List (List Char)) :
    toLowerCase ([':'].intercalate words) = [':'].intercalate (words.map toLowerCase) := by
  induction words with
  | nil => rfl
  | cons word rest ih =>
    cases rest with
    | nil => simp
    | cons next rest =>
      rw [List.intercalate_cons_cons, toLowerCase_append, toLowerCase_append, ih, List.map_cons,
        List.map_cons, List.map_cons, List.intercalate_cons_cons]
      rfl

theorem plain_padded (h : ∀ g ∈ groups, g < 65536) : Plain (groups.map padded) := by
  intro word hword
  obtain ⟨g, hg, rfl⟩ := List.mem_map.mp hword
  exact not_mem_hexText (nibbles_lt (h g hg))

theorem readGroups_padded (h : ∀ g ∈ groups, g < 65536) (hne : groups ≠ []) :
    readGroups (groups.map padded) = some groups := by
  induction groups with
  | nil => exact absurd rfl hne
  | cons g rest ih =>
    have hg := v6Segment_padded (h g List.mem_cons_self)
    rw [List.map_cons, readGroups]
    cases rest with
    | nil =>
      rw [List.map_nil, if_pos rfl, lastGroups, hg]
    | cons next rest =>
      rw [if_neg (by simp), hg,
        ih (fun x hx => h x (List.mem_cons_of_mem g hx)) (List.cons_ne_nil _ _)]
      rfl

/-- Eight groups are written one behind the other, the first one at any length. -/
theorem parseGroups_padded (hdigits : ∀ digit ∈ digits, digit < 16) (hne : digits ≠ [])
    (hfour : digits.length ≤ 4) (h : ∀ g ∈ others, g < 65536) (hlength : others.length = 7) :
    parseGroups (hexText digits :: others.map padded) = some (ofDigits 16 digits :: others) := by
  have hothers : others ≠ [] := by
    rintro rfl
    cases hlength
  have hsegment := v6Segment_hexText hdigits hne hfour
  have htake : (hexText digits :: others.map padded).take 2 ≠ [[], []] := by
    intro heq
    exact ne_nil_of_v6Segment hsegment (List.cons.inj heq).1
  have hread : readGroups (hexText digits :: others.map padded) =
      some (ofDigits 16 digits :: others) := by
    rw [readGroups, if_neg (fun heq => hothers (List.map_eq_nil_iff.mp heq)), hsegment,
      readGroups_padded h hothers]
    rfl
  rw [parseGroups, if_neg htake, hread]
  simp [hlength]

/-- The verdict on groups that are written out, the first one with some of its digits. -/
theorem isPublicAddress_written (hdigits : ∀ digit ∈ digits, digit < 16) (hne : digits ≠ [])
    (hfour : digits.length ≤ 4) (h : ∀ g ∈ others, g < 65536) (hlength : others.length = 7) :
    isPublicAddress ([':'].intercalate (hexText digits :: others.map padded)) = true ↔
      ¬PrivateStart digits := by
  have hseg : Segment (hexText digits) (ofDigits 16 digits) digits :=
    ⟨toLowerCase_hexText hdigits, hdigits, hne, hfour, rfl⟩
  have hplain : Plain (hexText digits :: others.map padded) := by
    intro word hword
    rcases List.mem_cons.mp hword with rfl | hword
    · exact not_mem_hexText hdigits
    · exact plain_padded h word hword
  have hparse := parseGroups_padded hdigits hne hfour h hlength
  obtain ⟨h4, h6⟩ := parse_words hplain (List.cons_ne_nil _ _)
  rw [hparse] at h6
  cases others with
  | nil => cases hlength
  | cons second rest =>
    have hcons : rest ≠ [] := by
      rintro rfl
      cases hlength
    obtain ⟨s, hs, -, hhead⟩ := intercalate_cons (padded second) (rest.map padded) []
      (fun c hc => by cases hc)
    rw [List.append_nil] at hs
    have hlower : toLowerCase ([':'].intercalate (hexText digits :: (second :: rest).map padded)) =
        hexText digits ++ ':' :: toLowerCase (padded second ++ s) := by
      rw [List.map_cons, List.intercalate_cons_cons, hs, List.append_assoc, toLowerCase_append,
        hseg.lower]
      rfl
    have hmapped : startsWith (toLowerCase ([':'].intercalate
        (hexText digits :: (second :: rest).map padded))) "::ffff:" = false := by
      rw [hlower]
      exact not_mapped_hexText hseg
    -- the second group has four digits, so that no text of three is read
    have hdocument : ¬"2001:db8:".toList <+: toLowerCase ([':'].intercalate
        (hexText digits :: (second :: rest).map padded)) := by
      intro hstart
      rw [hlower, ← toLowerCase_hexText hdigits] at hstart
      have hfirst := @word_of_lead "2001".toList "db8:".toList (hexText digits)
        (':' :: (padded second ++ s)) [padded second] (by decide) (by decide)
        (not_mem_hexText hdigits).1
        (fun c hc => Or.inl ⟨(Option.some.inj hc).symm, List.cons_ne_nil _ _⟩)
        (by rw [toLowerCase_append]; exact hstart)
      have hbehind : "db8".toList ++ ':' :: [] <+: toLowerCase (padded second ++ s) :=
        (List.cons_prefix_cons.mp hfirst.2.2).2
      obtain ⟨hnext, -, -⟩ := word_of_lead (by decide) (by decide)
        (not_mem_hexText (nibbles_lt (h second List.mem_cons_self))).1 hhead hbehind
      have hcount := congrArg List.length hnext
      cases hcount
    rw [isPublicAddress_v6 h4 h6, if_neg (by rw [hmapped]; decide), Bool.not_eq_true',
      Bool.eq_false_iff, Ne, hlower, beginsPrivate_hexText hseg, ← hlower]
    exact not_congr (or_iff_left hdocument)

end Spellings

/-! ## Exactly the misjudged addresses -/

section Judgement

variable {address : List Char} {groups others : List ℕ} {group : ℕ} {value : Denoted}

theorem parse_of_denotes_v4 {number : ℕ} (h : denotes address = some (.v4 number)) :
    ∃ bytes, parseIPv4 address = some bytes ∧ number = ofDigits 256 bytes := by
  unfold denotes at h
  split at h
  · rename_i bytes hbytes
    exact ⟨bytes, hbytes, (Denoted.v4.inj (Option.some.inj h)).symm⟩
  · obtain ⟨groups, -, hgroups⟩ := Option.map_eq_some_iff.mp h
    cases hgroups

theorem parse_of_denotes_v6 (h : denotes address = some (.v6 groups)) :
    parseIPv4 address = none ∧ parseIPv6 address = some groups := by
  unfold denotes at h
  split at h
  · cases h
  · rename_i hnone
    obtain ⟨found, hfound, heq⟩ := Option.map_eq_some_iff.mp h
    rw [Denoted.v6.inj heq] at hfound
    exact ⟨hnone, hfound⟩

/-- **A well-spelled address** is judged by its first group. -/
theorem isPublicAddress_wellSpelled (h : denotes address = some (.v6 groups))
    (hwell : ¬Misjudged groups) : isPublicAddress address = true ↔ ¬PrivateFirst groups := by
  obtain ⟨h4, h6⟩ := parse_of_denotes_v6 h
  obtain ⟨words, zone, hparse, hspell⟩ := exists_spelling h6
  rcases parseGroups_cases hparse with ⟨rest, right, rfl, hright, hlength, rfl⟩ | hleads
  · have hpublic := isPublicAddress_colons h4 h6 hspell hright hlength hwell
    refine iff_of_true hpublic ?_
    rintro ⟨first, behind, heq, hgroup⟩
    rw [show 8 - right.length = (7 - right.length) + 1 by omega, List.replicate_succ,
      List.cons_append] at heq
    rw [← (List.cons.inj heq).1] at hgroup
    unfold PrivateGroup at hgroup
    omega
  · obtain ⟨leads⟩ := hleads
    exact isPublicAddress_leads h4 h6 hspell leads hwell

/-- A special address that is not misjudged is one by its first group. -/
theorem privateFirst_of_special (h : SpecialV6 groups) (hwell : ¬Misjudged groups) :
    PrivateFirst groups := by
  have hzero : SpecialV4 0 := ⟨(ipv4 0 0 0 0, 8), by decide, by decide⟩
  have hone : SpecialV4 1 := ⟨(ipv4 0 0 0 0, 8), by decide, by decide⟩
  cases h with
  | unspecified => exact absurd (@Misjudged.compatible 0 0 hzero) hwell
  | loopback => exact absurd (@Misjudged.compatible 0 1 hone) hwell
  | uniqueLocal hlow hhigh => exact ⟨_, _, rfl, Or.inl ⟨hlow, hhigh⟩⟩
  | linkLocal hlow hhigh => exact ⟨_, _, rfl, Or.inr (Or.inl ⟨hlow, hhigh⟩)⟩
  | multicast hlow hhigh => exact ⟨_, _, rfl, Or.inr (Or.inr ⟨hlow, hhigh⟩)⟩
  | documentation => exact absurd .documentation hwell
  | mapped hvalue => exact absurd (@Misjudged.ones 5 _ (by omega) (by omega)) hwell
  | compatible hvalue => exact absurd (.compatible hvalue) hwell
  | nat64 hvalue => exact absurd (.nat64 hvalue) hwell

/-- A misjudged address is public where all its groups have four digits. -/
theorem exists_public_of_misjudged (h : Misjudged groups) (hlength : groups.length = 8)
    (hlt : ∀ g ∈ groups, g < 65536) :
    ∃ other, denotes other = some (.v6 groups) ∧ isPublicAddress other = true := by
  have hfirst : ∃ group others, groups = group :: others ∧ group / 4096 ≠ 15 := by
    cases h with
    | short hshort =>
      refine ⟨_, _, rfl, ?_⟩
      unfold ShortPrivate at hshort
      simp only [List.mem_cons, List.not_mem_nil, or_false] at hshort
      omega
    | documentation => exact ⟨_, _, rfl, by decide⟩
    | nat64 => exact ⟨_, _, rfl, by decide⟩
    | compatible => exact ⟨_, _, rfl, by decide⟩
    | @ones count behind hpos hsix =>
      obtain ⟨n, rfl⟩ : ∃ n, count = n + 1 := ⟨count - 1, by omega⟩
      rw [List.replicate_succ, List.cons_append]
      exact ⟨_, _, rfl, by decide⟩
  obtain ⟨group, others, rfl, hgroup⟩ := hfirst
  have hseven : others.length = 7 := by
    rw [List.length_cons] at hlength
    omega
  have hbound := nibbles_lt (hlt group List.mem_cons_self)
  have hothers : ∀ g ∈ others, g < 65536 := fun g hg => hlt g (List.mem_cons_of_mem _ hg)
  have hstart : ¬PrivateStart (nibbles group) := by
    intro hstart
    unfold PrivateStart nibbles at hstart
    simp only [List.cons_prefix_cons, List.nil_prefix, and_true] at hstart
    omega
  have hparse := parseGroups_padded hbound (List.cons_ne_nil _ _) (le_refl 4) hothers hseven
  rw [ofDigits_nibbles] at hparse
  have hplain : Plain (hexText (nibbles group) :: others.map padded) := plain_padded hlt
  exact ⟨_, denotes_words hplain hparse, (isPublicAddress_written hbound (List.cons_ne_nil _ _)
    (le_refl 4) hothers hseven).mpr hstart⟩

/-- A group that is taken for a private one has a spelling that is refused. -/
theorem exists_refused_of_short (h : ShortPrivate group) (hlength : others.length = 7)
    (hlt : ∀ g ∈ others, g < 65536) :
    ∃ other, denotes other = some (.v6 (group :: others)) ∧ isPublicAddress other = false := by
  have hdigits : ∃ digits, (∀ digit ∈ digits, digit < 16) ∧ digits ≠ [] ∧ digits.length ≤ 4 ∧
      ofDigits 16 digits = group ∧ PrivateStart digits := by
    have hthree : ∀ b c, b < 16 → c < 16 → group = 16 * (16 * 15 + b) + c →
        (b = 12 ∨ b = 13 ∨ (b = 14 ∧ 8 ≤ c ∧ c ≤ 11) ∨ b = 15) →
        ∃ digits, (∀ digit ∈ digits, digit < 16) ∧ digits ≠ [] ∧ digits.length ≤ 4 ∧
          ofDigits 16 digits = group ∧ PrivateStart digits := by
      intro b c hb hc hgroup hkind
      refine ⟨[15, b, c], ?_, List.cons_ne_nil _ _, Nat.le_succ 3, ?_, ?_⟩
      · intro digit hdigit
        simp only [List.mem_cons, List.not_mem_nil, or_false] at hdigit
        omega
      · exact hgroup.symm
      · unfold PrivateStart
        simp only [List.cons_prefix_cons, List.nil_prefix, and_true, true_and]
        omega
    rcases h with h | h | h | h
    · simp only [List.mem_cons, List.not_mem_nil, or_false] at h
      rcases h with rfl | rfl | rfl
      · exact ⟨[15, 12], by decide, by decide, by decide, rfl, Or.inl (by decide)⟩
      · exact ⟨[15, 13], by decide, by decide, by decide, rfl, Or.inr (Or.inl (by decide))⟩
      · refine ⟨[15, 15], by decide, by decide, by decide, rfl, ?_⟩
        unfold PrivateStart
        decide
    · exact hthree (group / 16 % 16) (group % 16) (by omega) (by omega) (by omega) (by omega)
    · exact hthree 14 (group % 16) (by omega) (by omega) (by omega) (by omega)
    · exact hthree 15 (group % 16) (by omega) (by omega) (by omega) (by omega)
  obtain ⟨digits, hbound, hne, hfour, rfl, hstart⟩ := hdigits
  have hplain : Plain (hexText digits :: others.map padded) := by
    intro word hword
    rcases List.mem_cons.mp hword with rfl | hword
    · exact not_mem_hexText hbound
    · exact plain_padded hlt word hword
  refine ⟨_, denotes_words hplain (parseGroups_padded hbound hne hfour hlt hlength), ?_⟩
  refine Bool.eq_false_iff.mpr fun hpublic => ?_
  exact (isPublicAddress_written hbound hne hfour hlt hlength).mp hpublic hstart

/-- Zeros and `ffff` behind them have a spelling that is refused. -/
theorem exists_refused_of_ones {count : ℕ} (hpos : 1 ≤ count)
    (hlength : (List.replicate count 0 ++ 0xFFFF :: others).length = 8)
    (hne : others ≠ []) (hlt : ∀ g ∈ others, g < 65536) :
    ∃ other, denotes other = some (.v6 (List.replicate count 0 ++ 0xFFFF :: others)) ∧
      isPublicAddress other = false := by
  have hcount : count + (others.length + 1) = 8 := by
    rw [List.length_append, List.length_replicate, List.length_cons] at hlength
    exact hlength
  have hrest : others.length ≠ 0 := fun hzero => hne (List.length_eq_zero_iff.mp hzero)
  have hones : ∀ g ∈ 0xFFFF :: others, g < 65536 := by
    intro g hg
    rcases List.mem_cons.mp hg with rfl | hg
    · decide
    · exact hlt g hg
  have hplain : Plain ([] :: [] :: (0xFFFF :: others).map padded) := by
    intro word hword
    rcases List.mem_cons.mp hword with rfl | hword
    · exact ⟨List.not_mem_nil, List.not_mem_nil, List.not_mem_nil⟩
    rcases List.mem_cons.mp hword with rfl | hword
    · exact ⟨List.not_mem_nil, List.not_mem_nil, List.not_mem_nil⟩
    exact plain_padded hones word hword
  have hread := readGroups_padded hones (List.cons_ne_nil _ _)
  have hright : readRight ((0xFFFF :: others).map padded) = some (0xFFFF :: others) := by
    rw [readRight, if_neg ?_, hread]
    intro heq
    have hword := (List.cons.inj heq).1
    cases hword
  have hparse : parseGroups ([] :: [] :: (0xFFFF :: others).map padded) =
      some (List.replicate count 0 ++ 0xFFFF :: others) := by
    have htake : ([] :: [] :: (0xFFFF :: others).map padded : List (List Char)).take 2 =
        [[], []] := rfl
    have hdrop : ([] :: [] :: (0xFFFF :: others).map padded : List (List Char)).drop 2 =
        (0xFFFF :: others).map padded := rfl
    rw [parseGroups, if_pos htake, hdrop, hright, Option.bind_some, filled, List.length_nil,
      List.length_cons, if_pos (by omega), List.nil_append]
    congr 3
    omega
  have hdenotes := denotes_words hplain hparse
  refine ⟨_, hdenotes, ?_⟩
  obtain ⟨h4, h6⟩ := parse_of_denotes_v6 hdenotes
  -- what stands behind `::ffff:` are groups, and not enough of them for an address
  have htext : [':'].intercalate ([] :: [] :: (0xFFFF :: others).map padded) =
      "::ffff:".toList ++ [':'].intercalate (others.map padded) := by
    cases others with
    | nil => exact absurd rfl hne
    | cons next rest =>
      rw [List.intercalate_cons_cons, List.map_cons, List.intercalate_cons_cons, List.map_cons,
        List.intercalate_cons_cons]
      rfl
  have hlower : toLowerCase ([':'].intercalate ([] :: [] :: (0xFFFF :: others).map padded)) =
      "::ffff:".toList ++ toLowerCase ([':'].intercalate (others.map padded)) := by
    rw [htext, toLowerCase_append]
    rfl
  have hbehind : isPublicAddress ([':'].intercalate (others.map padded)) = false := by
    have hnone : parseGroups (others.map padded) = none := by
      have htake : (others.map padded).take 2 ≠ [[], []] := by
        cases others with
        | nil => exact absurd rfl hne
        | cons next rest => exact fun heq => absurd (List.cons.inj heq).1 (List.cons_ne_nil _ _)
      rw [parseGroups, if_neg htake, readGroups_padded hlt hne]
      exact if_neg (by omega)
    obtain ⟨hv4, hv6⟩ := parse_words (plain_padded hlt)
      (fun heq => hne (List.map_eq_nil_iff.mp heq))
    have hzero : isIP ([':'].intercalate (others.map padded)) = 0 := by
      rw [isIP, hv4, hv6, hnone]
      rfl
    rw [isPublicAddress, if_neg (by rw [hzero]; decide), if_pos (by rw [hzero]; decide)]
  have hstart : startsWith (toLowerCase ([':'].intercalate
      ([] :: [] :: (0xFFFF :: others).map padded))) "::ffff:" := by
    rw [startsWith_iff, hlower]
    exact List.prefix_append _ _
  have hself : toLowerCase ([':'].intercalate (others.map padded)) =
      [':'].intercalate (others.map padded) := by
    rw [toLowerCase_intercalate, List.map_map]
    congr 1
    exact List.map_congr_left fun g hg => toLowerCase_hexText (nibbles_lt (hlt g hg))
  rw [isPublicAddress_v6 h4 h6, if_pos hstart, hlower, hself]
  exact hbehind

/-- **Addresses are judged by their value** exactly if it is not one of those misjudged. -/
theorem judged_iff (h : denotes address = some value) :
    Judged address value ↔ value.WellSpelled := by
  cases value with
  | v4 number =>
    refine iff_of_true ⟨fun other hother => ?_, fun hspecial => ?_⟩ trivial
    · obtain ⟨bytes, hbytes, rfl⟩ := parse_of_denotes_v4 h
      obtain ⟨bytes', hbytes', heq⟩ := parse_of_denotes_v4 hother
      rw [Bool.eq_iff_iff, isPublicAddress_v4 hbytes, isPublicAddress_v4 hbytes', heq]
    · obtain ⟨bytes, hbytes, rfl⟩ := parse_of_denotes_v4 h
      refine Bool.eq_false_iff.mpr fun hpublic => ?_
      exact (isPublicAddress_v4 hbytes).mp hpublic hspecial
  | v6 groups =>
    constructor
    · intro hjudged hmis
      obtain ⟨-, h6⟩ := parse_of_denotes_v6 h
      obtain ⟨words, zone, hparse, -⟩ := exists_spelling h6
      obtain ⟨hlength, hlt⟩ := parseGroups_spec hparse
      obtain ⟨full, hfull, hpublic⟩ := exists_public_of_misjudged hmis hlength hlt
      have haddress : isPublicAddress address = true := (hjudged.spellings full hfull).symm.trans
        hpublic
      have hspecial : ¬SpecialV6 groups := fun hspecial => by
        rw [hjudged.special hspecial] at haddress
        cases haddress
      have hrefused : ¬∃ other, denotes other = some (.v6 groups) ∧
          isPublicAddress other = false := by
        rintro ⟨other, hother, hfalse⟩
        rw [← hjudged.spellings other hother, hfalse] at haddress
        cases haddress
      cases hmis with
      | short hshort =>
        refine hrefused (exists_refused_of_short hshort ?_ fun g hg =>
          hlt g (List.mem_cons_of_mem _ hg))
        rw [List.length_cons] at hlength
        omega
      | documentation => exact hspecial .documentation
      | nat64 hvalue => exact hspecial (.nat64 hvalue)
      | compatible hvalue => exact hspecial (.compatible hvalue)
      | ones hpos hsix =>
        refine hrefused (exists_refused_of_ones hpos hlength ?_ fun g hg => hlt g ?_)
        · rintro rfl
          rw [List.length_append, List.length_replicate] at hlength
          simp only [List.length_cons, List.length_nil] at hlength
          omega
        · exact List.mem_append_right _ (List.mem_cons_of_mem _ hg)
    · intro hwell
      have hverdict := fun other hother => @isPublicAddress_wellSpelled other groups hother hwell
      refine ⟨fun other hother => ?_, fun hspecial => ?_⟩
      · rw [Bool.eq_iff_iff, hverdict other hother, hverdict address h]
      · refine Bool.eq_false_iff.mpr fun hpublic => ?_
        exact (hverdict address h).mp hpublic (privateFirst_of_special hspecial hwell)

/-- The loopback address, written out, is taken for a public one. -/
theorem not_judged_loopback : ¬∀ address value, denotes address = some value →
    Judged address value := by
  intro h
  have hdenotes : denotes "0:0:0:0:0:0:0:1".toList = some (.v6 [0, 0, 0, 0, 0, 0, 0, 1]) := by
    have h4 : parseIPv4 "0:0:0:0:0:0:0:1".toList = none := by decide +kernel
    have h6 : parseIPv6 "0:0:0:0:0:0:0:1".toList = some [0, 0, 0, 0, 0, 0, 0, 1] := by
      decide +kernel
    rw [denotes, h4, h6]
    rfl
  have hpublic : isPublicAddress "0:0:0:0:0:0:0:1".toList = true := by decide +kernel
  rw [(h _ _ hdenotes).special .loopback] at hpublic
  cases hpublic

/-- An address of a name server. -/
theorem judged_nameServer : Judged "2606:4700:4700::1111".toList
      (.v6 [0x2606, 0x4700, 0x4700, 0, 0, 0, 0, 0x1111]) ↔
    (Denoted.v6 [0x2606, 0x4700, 0x4700, 0, 0, 0, 0, 0x1111]).WellSpelled := by
  have h4 : parseIPv4 "2606:4700:4700::1111".toList = none := by decide +kernel
  have h6 : parseIPv6 "2606:4700:4700::1111".toList =
      some [0x2606, 0x4700, 0x4700, 0, 0, 0, 0, 0x1111] := by
    decide +kernel
  refine judged_iff ?_
  rw [denotes, h4, h6]
  rfl

end Judgement

end PinnedHttps

end HoodSentry
