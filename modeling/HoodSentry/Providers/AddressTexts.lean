import HoodSentry.Common.Text
import HoodSentry.Common.Lists
import HoodSentry.Providers.Model.PinnedHttps
/-!
# Texts of addresses

What an address denotes is its 32 bits, or its eight groups of 16, and which
values are special. An IPv4 address is read as it was accepted, so that it is
judged by its value (`isPublicAddress_v4`). Of an accepted IPv6 address it is
known how it begins (`parseGroups_cases`), and what the beginning tells of its
first group (`group_of_privateStart`, `privateStart_of_group`).
-/

namespace HoodSentry

namespace PinnedHttps

/-! ## Values -/

/-- What a text denotes: 32 bits as a number, or 128 bits as eight groups. -/
inductive Denoted
  | v4 (value : ℕ)
  | v6 (groups : List ℕ)

def denotes (address : List Char) : Option Denoted :=
  match parseIPv4 address with
  | some bytes => some (.v4 (ofDigits 256 bytes))
  | none => (parseIPv6 address).map .v6

def ipv4 (a b c d : ℕ) : ℕ := ofDigits 256 [a, b, c, d]

/-- The blocks of IPv4 addresses that are not public, with the lengths of their prefixes. -/
def specialBlocks : List (ℕ × ℕ) :=
  [ -- unspecified, private, carrier-grade NAT, loopback, link-local, private
    (ipv4 0 0 0 0, 8), (ipv4 10 0 0 0, 8), (ipv4 100 64 0 0, 10), (ipv4 127 0 0 0, 8),
    (ipv4 169 254 0 0, 16), (ipv4 172 16 0 0, 12),
    -- protocol assignments, documentation, private, benchmarks, documentation
    (ipv4 192 0 0 0, 24), (ipv4 192 0 2 0, 24), (ipv4 192 168 0 0, 16), (ipv4 198 18 0 0, 15),
    (ipv4 198 51 100 0, 24), (ipv4 203 0 113 0, 24),
    -- multicast, reserved
    (ipv4 224 0 0 0, 4), (ipv4 240 0 0 0, 4)]

/-- An IPv4 address whose prefix is that of such a block. -/
def SpecialV4 (value : ℕ) : Prop :=
  ∃ block ∈ specialBlocks, value / 2 ^ (32 - block.2) = block.1 / 2 ^ (32 - block.2)

/-- **The IPv6 addresses that are not public**, by value. -/
inductive SpecialV6 : List ℕ → Prop
  | unspecified : SpecialV6 [0, 0, 0, 0, 0, 0, 0, 0]
  | loopback : SpecialV6 [0, 0, 0, 0, 0, 0, 0, 1]
  | uniqueLocal {group : ℕ} {groups : List ℕ} :
      0xFC00 ≤ group → group ≤ 0xFDFF → SpecialV6 (group :: groups)
  | linkLocal {group : ℕ} {groups : List ℕ} :
      0xFE80 ≤ group → group ≤ 0xFEBF → SpecialV6 (group :: groups)
  | multicast {group : ℕ} {groups : List ℕ} :
      0xFF00 ≤ group → group ≤ 0xFFFF → SpecialV6 (group :: groups)
  | documentation {groups : List ℕ} : SpecialV6 (0x2001 :: 0xDB8 :: groups)
  | mapped {high low : ℕ} : SpecialV4 (65536 * high + low) →
      SpecialV6 [0, 0, 0, 0, 0, 0xFFFF, high, low]
  | compatible {high low : ℕ} : SpecialV4 (65536 * high + low) →
      SpecialV6 [0, 0, 0, 0, 0, 0, high, low]
  | nat64 {high low : ℕ} : SpecialV4 (65536 * high + low) →
      SpecialV6 [0x64, 0xFF9B, 0, 0, 0, 0, high, low]

def Special : Denoted → Prop
  | .v4 value => SpecialV4 value
  | .v6 groups => SpecialV6 groups

/-- **An address is judged by its value**: every spelling alike, and none is public if it
is special. -/
structure Judged (address : List Char) (value : Denoted) : Prop where
  spellings : ∀ other, denotes other = some value →
    isPublicAddress other = isPublicAddress address
  special : Special value → isPublicAddress address = false

/-- A first group that is taken for a private one when it is written without leading zeros. -/
def ShortPrivate (group : ℕ) : Prop :=
  group ∈ [0xFC, 0xFD, 0xFF] ∨ (0xFC0 ≤ group ∧ group ≤ 0xFDF) ∨
    (0xFE8 ≤ group ∧ group ≤ 0xFEB) ∨ (0xFF0 ≤ group ∧ group ≤ 0xFFF)

/-- **The IPv6 addresses that are misjudged** in one of their spellings at least. -/
inductive Misjudged : List ℕ → Prop
  | short {group : ℕ} {groups : List ℕ} : ShortPrivate group → Misjudged (group :: groups)
  | documentation {groups : List ℕ} : Misjudged (0x2001 :: 0xDB8 :: groups)
  | nat64 {high low : ℕ} : SpecialV4 (65536 * high + low) →
      Misjudged [0x64, 0xFF9B, 0, 0, 0, 0, high, low]
  | compatible {high low : ℕ} : SpecialV4 (65536 * high + low) →
      Misjudged [0, 0, 0, 0, 0, 0, high, low]
  | ones {count : ℕ} {groups : List ℕ} : 1 ≤ count → count ≤ 6 →
      Misjudged (List.replicate count 0 ++ 0xFFFF :: groups)

def Denoted.WellSpelled : Denoted → Prop
  | .v4 _ => True
  | .v6 groups => ¬Misjudged groups

/-! ## Digits -/

section Digits

variable {c : Char} {n : ℕ} {word : List Char} {digits other : List ℕ} {group : ℕ}

/-- A hex digit in lower case. -/
def hexChar (digit : ℕ) : Char :=
  if digit < 10 then Char.ofNat (48 + digit) else Char.ofNat (87 + digit)

/-- What holds of the characters up to `z` holds of hex digits. -/
theorem hexDigit_eq_some (h : hexDigit c = some n) : n < 16 ∧ c.toLower = hexChar n ∧ c ≠ '%' := by
  have hall : ∀ m < 128, (hexDigit (Char.ofNat m)).all fun n =>
      n < 16 && (Char.ofNat m).toLower = hexChar n && Char.ofNat m ≠ '%' := by
    decide +kernel
  have hlt : c.toNat < 128 := by
    unfold hexDigit at h
    simp only [Bool.and_eq_true, decide_eq_true_eq] at h
    split at h
    · rename_i hc
      have := UInt32.le_iff_toNat_le.mp hc.2
      have hnine : '9'.val.toNat = 57 := rfl
      show c.val.toNat < 128
      omega
    · split at h
      · rename_i hc
        have := UInt32.le_iff_toNat_le.mp hc.2
        have hf : 'f'.val.toNat = 102 := rfl
        show c.val.toNat < 128
        omega
      · split at h
        · rename_i hc
          have := UInt32.le_iff_toNat_le.mp hc.2
          have hF : 'F'.val.toNat = 70 := rfl
          show c.val.toNat < 128
          omega
        · cases h
  have hc := hall c.toNat hlt
  rw [Char.ofNat_toNat, h] at hc
  simpa [and_assoc] using hc

theorem hexDigit_of_toLower (hn : n < 16) (h : c.toLower = hexChar n) : hexDigit c = some n := by
  have hall : ∀ m < 128, ∀ n < 16, (Char.ofNat m).toLower = hexChar n →
      hexDigit (Char.ofNat m) = some n := by
    decide +kernel
  have hsmall : ∀ n < 16, (hexChar n).toNat < 128 := by decide
  by_cases hlt : c.toNat < 128
  · rw [← Char.ofNat_toNat c] at h ⊢
    exact hall c.toNat hlt n hn h
  · have hself : c.toLower = c := by
      rw [Char.toLower, dif_neg]
      rintro ⟨-, hupper⟩
      have hz : c.toNat ≤ 90 := UInt32.le_iff_toNat_le.mp hupper
      omega
    rw [hself] at h
    exact absurd (h ▸ hsmall n hn) hlt

theorem hexDigit_hexChar (h : n < 16) : hexDigit (hexChar n) = some n := by
  have hall : ∀ n < 16, hexDigit (hexChar n) = some n := by decide
  exact hall n h

theorem toLower_hexChar (h : n < 16) : (hexChar n).toLower = hexChar n :=
  (hexDigit_eq_some (hexDigit_hexChar h)).2.1

theorem hexChar_ne_colon (h : n < 16) : hexChar n ≠ ':' ∧ hexChar n ≠ '%' ∧ hexChar n ≠ '.' := by
  have hall : ∀ n < 16, hexChar n ≠ ':' ∧ hexChar n ≠ '%' ∧ hexChar n ≠ '.' := by decide
  exact hall n h

theorem hexChar_inj {m n : ℕ} (hm : m < 16) (hn : n < 16) (h : hexChar m = hexChar n) : m = n := by
  have heq := hexDigit_hexChar hm
  rw [h, hexDigit_hexChar hn] at heq
  exact (Option.some.inj heq).symm

/-- The digits of a segment, as they stand in its text. -/
structure Segment (word : List Char) (group : ℕ) (digits : List ℕ) : Prop where
  lower : toLowerCase word = digits.map hexChar
  bound : ∀ digit ∈ digits, digit < 16
  ne_nil : digits ≠ []
  length : digits.length ≤ 4
  value : group = ofDigits 16 digits

theorem lower_of_mapM (h : word.mapM hexDigit = some digits) :
    toLowerCase word = digits.map hexChar ∧ ∀ digit ∈ digits, digit < 16 := by
  induction word generalizing digits with
  | nil =>
    obtain rfl : [] = digits := Option.some.inj h
    exact ⟨rfl, fun digit hdigit => absurd hdigit List.not_mem_nil⟩
  | cons c word ih =>
    obtain ⟨digit, rest, hc, hrest, rfl⟩ := mapM_cons_eq_some.mp h
    obtain ⟨hlower, hbound⟩ := ih hrest
    obtain ⟨hdigit, hchar, -⟩ := hexDigit_eq_some hc
    refine ⟨?_, fun other hother => ?_⟩
    · rw [List.map_cons, ← hchar, ← hlower]
      rfl
    · rcases List.mem_cons.mp hother with rfl | hother
      · exact hdigit
      · exact hbound other hother

theorem exists_segment (h : v6Segment word = some group) : ∃ digits, Segment word group digits := by
  obtain ⟨digits, hdigits, hsome⟩ := Option.bind_eq_some_iff.mp h
  obtain ⟨hlower, hbound⟩ := lower_of_mapM hdigits
  split at hsome
  · rename_i hlength
    simp only [ne_eq, decide_not, Bool.and_eq_true, Bool.not_eq_true', decide_eq_false_iff_not,
      decide_eq_true_eq] at hlength
    exact ⟨digits, hlower, hbound, hlength.1, hlength.2, (Option.some.inj hsome).symm⟩
  · cases hsome

/-- The text of some digits, in lower case. -/
def hexText (digits : List ℕ) : List Char := digits.map hexChar

theorem mapM_hexText (h : ∀ digit ∈ digits, digit < 16) :
    (hexText digits).mapM hexDigit = some digits := by
  induction digits with
  | nil => rfl
  | cons digit digits ih =>
    rw [hexText, List.map_cons, mapM_cons_eq_some]
    exact ⟨digit, digits, hexDigit_hexChar (h digit List.mem_cons_self),
      ih fun other hother => h other (List.mem_cons_of_mem _ hother), rfl⟩

/-- Letter case does not change what a word of hex digits stands for. -/
theorem mapM_of_lower {word : List Char} (h : ∀ digit ∈ digits, digit < 16)
    (hlower : toLowerCase word = hexText digits) : word.mapM hexDigit = some digits := by
  induction word generalizing digits with
  | nil =>
    obtain rfl : digits = [] := List.map_eq_nil_iff.mp hlower.symm
    rfl
  | cons c word ih =>
    cases digits with
    | nil => cases hlower
    | cons digit digits =>
      obtain ⟨hc, hrest⟩ := List.cons.inj hlower
      exact mapM_cons_eq_some.mpr ⟨digit, digits,
        hexDigit_of_toLower (h digit List.mem_cons_self) hc,
        ih (fun other hother => h other (List.mem_cons_of_mem _ hother)) hrest, rfl⟩

theorem v6Segment_of_lower {word : List Char} (h : ∀ digit ∈ digits, digit < 16)
    (hne : digits ≠ []) (hlength : digits.length ≤ 4) (hlower : toLowerCase word = hexText digits) :
    v6Segment word = some (ofDigits 16 digits) := by
  rw [v6Segment, mapM_of_lower h hlower]
  simp [hne, hlength]

theorem v6Segment_hexText (h : ∀ digit ∈ digits, digit < 16) (hne : digits ≠ [])
    (hlength : digits.length ≤ 4) : v6Segment (hexText digits) = some (ofDigits 16 digits) := by
  rw [v6Segment, mapM_hexText h]
  simp [hne, hlength]

theorem not_mem_hexText (h : ∀ digit ∈ digits, digit < 16) :
    ':' ∉ hexText digits ∧ '%' ∉ hexText digits ∧ '.' ∉ hexText digits := by
  refine ⟨fun hmem => ?_, fun hmem => ?_, fun hmem => ?_⟩
  all_goals obtain ⟨digit, hdigit, heq⟩ := List.mem_map.mp hmem
  · exact (hexChar_ne_colon (h digit hdigit)).1 heq
  · exact (hexChar_ne_colon (h digit hdigit)).2.1 heq
  · exact (hexChar_ne_colon (h digit hdigit)).2.2 heq

/-- A group's four digits. -/
def nibbles (group : ℕ) : List ℕ := [group / 4096, group / 256 % 16, group / 16 % 16, group % 16]

def padded (group : ℕ) : List Char := hexText (nibbles group)

theorem nibbles_lt (h : group < 65536) : ∀ digit ∈ nibbles group, digit < 16 := by
  intro digit hdigit
  simp only [nibbles, List.mem_cons, List.not_mem_nil, or_false] at hdigit
  omega

theorem ofDigits_nibbles : ofDigits 16 (nibbles group) = group := by
  simp only [ofDigits, nibbles, List.foldl_cons, List.foldl_nil]
  omega

theorem v6Segment_padded (h : group < 65536) : v6Segment (padded group) = some group := by
  rw [padded, v6Segment_hexText (nibbles_lt h) (List.cons_ne_nil _ _) (le_refl 4),
    ofDigits_nibbles]

end Digits

/-! ## IPv4 addresses -/

section V4

variable {address text : List Char} {bytes : List ℕ} {value base width : ℕ}

/-- The bits that a mask keeps. -/
theorem getLsbD_masked (value k i : ℕ) :
    (BitVec.ofNat 32 value &&& BitVec.allOnes 32 <<< k).getLsbD i =
      (decide (i < 32) && !decide (i < k) && value.testBit i) := by
  rw [BitVec.getLsbD_and, BitVec.getLsbD_shiftLeft, BitVec.getLsbD_allOnes, BitVec.getLsbD_ofNat]
  by_cases hi : i < 32
  · have hsub : i - k < 32 := by omega
    rw [decide_eq_true hi, decide_eq_true hsub]
    cases value.testBit i <;> simp
  · rw [decide_eq_false hi]
    rfl

/-- Masked values are the same exactly if the numbers of their first bits are. -/
theorem inIpv4Range_iff (hvalue : value < 2 ^ 32) (hbase : base < 2 ^ 32)
    (hpos : width ≠ 0) : inIpv4Range value base width ↔
      value / 2 ^ (32 - width) = base / 2 ^ (32 - width) := by
  have hbit : ∀ n < 2 ^ 32, ∀ i, 32 ≤ i → n.testBit i = false := fun n hn i hi =>
    Nat.testBit_lt_two_pow (lt_of_lt_of_le hn (Nat.pow_le_pow_right (by omega) hi))
  rw [inIpv4Range]
  simp only [hpos, if_false, decide_eq_true_eq]
  generalize hk : 32 - width = k
  constructor
  · intro h
    refine Nat.eq_of_testBit_eq fun i => ?_
    rw [Nat.testBit_div_two_pow, Nat.testBit_div_two_pow]
    by_cases hi : i + k < 32
    · have hat := congrArg (fun x : BitVec 32 => x.getLsbD (i + k)) h
      simpa only [getLsbD_masked, decide_eq_true hi, decide_eq_false (Nat.not_lt_of_ge
        (Nat.le_add_left k i)), Bool.not_false, Bool.true_and] using hat
    · rw [hbit value hvalue _ (by omega), hbit base hbase _ (by omega)]
  · intro h
    refine BitVec.eq_of_getLsbD_eq fun i hi => ?_
    rw [getLsbD_masked, getLsbD_masked]
    by_cases hik : i < k
    · rw [decide_eq_true hik]
      simp
    · have hat := congrArg (fun n : ℕ => n.testBit (i - k)) h
      simp only [Nat.testBit_div_two_pow, Nat.sub_add_cancel (Nat.not_lt.mp hik)] at hat
      rw [hat]

theorem byte_of_v4Segment {word : List Char} {byte : ℕ} (h : v4Segment word = some byte) :
    (word.mapM decimalDigit).map (ofDigits 10) = some byte ∧ byte ≤ 255 := by
  obtain ⟨digits, hdigits, hsome⟩ := Option.bind_eq_some_iff.mp h
  split at hsome
  · rename_i hrange
    obtain rfl := Option.some.inj hsome
    refine ⟨by rw [hdigits]; rfl, ?_⟩
    rw [Bool.or_eq_true, decide_eq_true_iff, Bool.and_eq_true, decide_eq_true_iff] at hrange
    rcases hrange with rfl | hrange
    · decide
    · exact hrange.2
  · cases hsome

/-- An IPv4 address has four bytes, and the code reads the same ones. -/
theorem bytes_of_parseIPv4 (h : parseIPv4 text = some bytes) :
    ∃ a b c d, bytes = [a, b, c, d] ∧ a ≤ 255 ∧ b ≤ 255 ∧ c ≤ 255 ∧ d ≤ 255 ∧
      ipv4Number text = some (ofDigits 256 bytes) := by
  obtain ⟨found, hfound, hsome⟩ := Option.bind_eq_some_iff.mp h
  split at hsome
  · rename_i hlength
    obtain rfl := Option.some.inj hsome
    have hbytes : ∀ byte ∈ found, byte ≤ 255 := by
      intro byte hbyte
      obtain ⟨word, -, hword⟩ := (mem_of_mapM_eq_some hfound).mp hbyte
      exact (byte_of_v4Segment hword).2
    have hparts : (text.splitOn '.').mapM (fun part => (part.mapM decimalDigit).map (ofDigits 10)) =
        some found :=
      mapM_eq_some_mono (fun word byte hword => (byte_of_v4Segment hword).1) hfound
    obtain ⟨a, b, c, d, rfl⟩ := List.length_eq_four.mp hlength
    have ha := hbytes a (by simp)
    have hb := hbytes b (by simp)
    have hc := hbytes c (by simp)
    have hd := hbytes d (by simp)
    refine ⟨a, b, c, d, rfl, ha, hb, hc, hd, ?_⟩
    have hsmall : (255 < a || 255 < b || 255 < c || 255 < d) = false := by
      simp [ha, hb, hc, hd]
    rw [ipv4Number, hparts]
    simp only [hsmall, Bool.false_eq_true, if_false, Nat.shiftLeft_eq, ofDigits, List.foldl_cons,
      List.foldl_nil, Option.some.injEq]
    omega
  · cases hsome

theorem blocked_eq : blocked.map (fun range => (ipv4Number range.1.toList, range.2)) =
    specialBlocks.map fun block => (some block.1, block.2) := by
  decide +kernel

/-- **An IPv4 address** is public exactly if its value is not special. -/
theorem isPublicAddress_v4 (h : parseIPv4 address = some bytes) :
    isPublicAddress address = true ↔ ¬SpecialV4 (ofDigits 256 bytes) := by
  obtain ⟨a, b, c, d, rfl, ha, hb, hc, hd, hnumber⟩ := bytes_of_parseIPv4 h
  have hvalue : ofDigits 256 [a, b, c, d] < 2 ^ 32 := by
    simp only [ofDigits, List.foldl_cons, List.foldl_nil]
    omega
  have hfour : isIP address = 4 := by
    rw [isIP, h]
    rfl
  have hblock : ∀ block ∈ specialBlocks, block.1 < 2 ^ 32 ∧ block.2 ≠ 0 := by
    decide
  have hany : (blocked.any fun range => (ipv4Number range.1.toList).any fun numericBase =>
      inIpv4Range (ofDigits 256 [a, b, c, d]) numericBase range.2) =
      specialBlocks.any fun block => inIpv4Range (ofDigits 256 [a, b, c, d]) block.1 block.2 := by
    have hmap := congrArg (List.any · fun range : Option ℕ × ℕ => range.1.any fun numericBase =>
      inIpv4Range (ofDigits 256 [a, b, c, d]) numericBase range.2) blocked_eq
    simp only [List.any_map] at hmap
    exact hmap
  rw [isPublicAddress, if_pos hfour, hnumber]
  simp only [hany, Bool.not_eq_true', Bool.eq_false_iff, ne_eq, List.any_eq_true]
  refine not_congr ⟨?_, ?_⟩
  · rintro ⟨block, hmem, hrange⟩
    obtain ⟨hbase, hpos⟩ := hblock block hmem
    exact ⟨block, hmem, (inIpv4Range_iff hvalue hbase hpos).mp hrange⟩
  · rintro ⟨block, hmem, hrange⟩
    obtain ⟨hbase, hpos⟩ := hblock block hmem
    exact ⟨block, hmem, (inIpv4Range_iff hvalue hbase hpos).mpr hrange⟩

end V4

/-! ## IPv6 addresses -/

section Words

variable {word : List Char} {words : List (List Char)} {group : ℕ} {groups left right : List ℕ}

theorem group_lt (h : v6Segment word = some group) : group < 65536 := by
  obtain ⟨digits, hseg⟩ := exists_segment h
  have hbound := hseg.bound
  have hlength := hseg.length
  rw [hseg.value]
  rcases digits with _ | ⟨a, _ | ⟨b, _ | ⟨c, _ | ⟨d, _ | ⟨e, rest⟩⟩⟩⟩⟩
  all_goals simp only [ofDigits, List.foldl_cons, List.foldl_nil, List.mem_cons, List.length_cons,
    List.not_mem_nil, or_false, forall_eq_or_imp, forall_eq] at *
  all_goals omega

theorem ne_nil_of_v6Segment (h : v6Segment word = some group) : word ≠ [] := by
  rintro rfl
  cases h

theorem lastGroups_spec (h : lastGroups word = some groups) :
    groups ≠ [] ∧ groups.length ≤ 2 ∧ ∀ g ∈ groups, g < 65536 := by
  unfold lastGroups at h
  split at h
  · rename_i group hgroup
    obtain rfl := Option.some.inj h
    refine ⟨List.cons_ne_nil _ _, Nat.le_succ 1, fun g hg => ?_⟩
    rw [List.mem_singleton.mp hg]
    exact group_lt hgroup
  · obtain ⟨bytes, hbytes, rfl⟩ := Option.map_eq_some_iff.mp h
    obtain ⟨a, b, c, d, rfl, ha, hb, hc, hd, -⟩ := bytes_of_parseIPv4 hbytes
    refine ⟨List.cons_ne_nil _ _, le_refl 2, fun g hg => ?_⟩
    simp only [pairs, List.mem_cons, List.not_mem_nil, or_false] at hg
    omega

/-- The ways a list of groups is read: its last word, or a group and more of them. -/
theorem readGroups_cases (h : readGroups words = some groups) :
    (∃ word, words = [word] ∧ lastGroups word = some groups) ∨
      ∃ word rest group others, words = word :: rest ∧ rest ≠ [] ∧ v6Segment word = some group ∧
        readGroups rest = some others ∧ groups = group :: others := by
  cases words with
  | nil => cases h
  | cons word rest =>
    rw [readGroups] at h
    split at h
    · rename_i hrest
      exact Or.inl ⟨word, by rw [hrest], h⟩
    · rename_i hrest
      obtain ⟨group, hgroup, h⟩ := Option.bind_eq_some_iff.mp h
      obtain ⟨others, hothers, h⟩ := Option.bind_eq_some_iff.mp h
      exact Or.inr ⟨word, rest, group, others, rfl, hrest, hgroup, hothers,
        (Option.some.inj h).symm⟩

theorem readGroups_spec (h : readGroups words = some groups) :
    groups ≠ [] ∧ ∀ g ∈ groups, g < 65536 := by
  induction words generalizing groups with
  | nil => cases h
  | cons word words ih =>
    rcases readGroups_cases h with ⟨last, -, hlast⟩ | ⟨first, rest, group, others, hwords, -,
      hgroup, hothers, rfl⟩
    · obtain ⟨hne, -, hlt⟩ := lastGroups_spec hlast
      exact ⟨hne, hlt⟩
    · obtain ⟨rfl, rfl⟩ := List.cons.inj hwords
      refine ⟨List.cons_ne_nil _ _, fun g hg => ?_⟩
      rcases List.mem_cons.mp hg with rfl | hg
      · exact group_lt hgroup
      · exact (ih hothers).2 g hg

theorem readRight_lt (h : readRight words = some right) : ∀ g ∈ right, g < 65536 := by
  unfold readRight at h
  split at h
  · obtain rfl := Option.some.inj h
    exact fun g hg => absurd hg List.not_mem_nil
  · exact (readGroups_spec h).2

/-- The groups before `::` are read off the words before the empty one. -/
theorem readLeft_cases {rest : List (List Char)} (h : readLeft words = some (left, rest)) :
    (left = [] ∧ words = [] :: rest) ∨
      ∃ word others group groups, words = word :: others ∧ word ≠ [] ∧
        v6Segment word = some group ∧ readLeft others = some (groups, rest) ∧
        left = group :: groups := by
  cases words with
  | nil => cases h
  | cons word others =>
    rw [readLeft] at h
    split at h
    · rename_i hword
      obtain ⟨rfl, rfl⟩ := Prod.mk.inj (Option.some.inj h)
      exact Or.inl ⟨rfl, by rw [hword]⟩
    · rename_i hword
      obtain ⟨group, hgroup, h⟩ := Option.bind_eq_some_iff.mp h
      obtain ⟨⟨groups, behind⟩, hread, h⟩ := Option.bind_eq_some_iff.mp h
      obtain ⟨rfl, rfl⟩ := Prod.mk.inj (Option.some.inj h)
      exact Or.inr ⟨word, others, group, groups, rfl, hword, hgroup, hread, rfl⟩

theorem readLeft_lt {rest : List (List Char)} (h : readLeft words = some (left, rest)) :
    ∀ g ∈ left, g < 65536 := by
  induction words generalizing left with
  | nil => cases h
  | cons word words ih =>
    rcases readLeft_cases h with ⟨rfl, -⟩ | ⟨first, others, group, groups, hwords, -, hgroup, hread,
      rfl⟩
    · exact fun g hg => absurd hg List.not_mem_nil
    · obtain ⟨rfl, rfl⟩ := List.cons.inj hwords
      intro g hg
      rcases List.mem_cons.mp hg with rfl | hg
      · exact group_lt hgroup
      · exact ih hread g hg

theorem filled_eq_some (h : filled left right = some groups) :
    left.length + right.length ≤ 7 ∧
      groups = left ++ List.replicate (8 - (left.length + right.length)) 0 ++ right := by
  unfold filled at h
  split at h
  · rename_i hlength
    exact ⟨hlength, (Option.some.inj h).symm⟩
  · cases h

/-- An address that begins with a group and a colon. -/
structure Leads (words : List (List Char)) (groups : List ℕ) where
  word : List Char
  next : List Char
  rest : List (List Char)
  group : ℕ
  others : List ℕ
  words_eq : words = word :: next :: rest
  segment : v6Segment word = some group
  groups_eq : groups = group :: others
  second : next ≠ [] → rest ≠ [] →
    ∃ found behind, others = found :: behind ∧ v6Segment next = some found

theorem leads_of_readGroups (h : readGroups words = some groups) (hlength : groups.length = 8) :
    Nonempty (Leads words groups) := by
  rcases readGroups_cases h with ⟨word, -, hlast⟩ | ⟨word, behind, group, others, rfl, hne, hgroup,
    hothers, rfl⟩
  · have htwo := (lastGroups_spec hlast).2.1
    omega
  · cases behind with
    | nil => exact absurd rfl hne
    | cons next rest =>
      refine ⟨⟨word, next, rest, group, others, rfl, hgroup, rfl, fun _ hrest => ?_⟩⟩
      rcases readGroups_cases hothers with ⟨last, hwords, -⟩ | ⟨first, behind, found, others',
        hwords, -, hfound, -, rfl⟩
      · exact absurd (List.cons.inj hwords).2 hrest
      · obtain ⟨rfl, -⟩ := List.cons.inj hwords
        exact ⟨found, others', rfl, hfound⟩

theorem leads_of_readLeft {rest : List (List Char)} (h : readLeft words = some (left, rest))
    (hne : left ≠ []) (tail : List ℕ) : Nonempty (Leads words (left ++ tail)) := by
  rcases readLeft_cases h with ⟨hnil, -⟩ | ⟨word, behind, group, groups, rfl, -, hgroup, hread, rfl⟩
  · exact absurd hnil hne
  · cases behind with
    | nil => cases hread
    | cons next behind =>
      refine ⟨⟨word, next, behind, group, groups ++ tail, rfl, hgroup, rfl, fun hnext _ => ?_⟩⟩
      rcases readLeft_cases hread with ⟨-, hwords⟩ | ⟨first, others, found, groups', hwords, -,
        hfound, -, rfl⟩
      · exact absurd (List.cons.inj hwords).1 hnext
      · obtain ⟨rfl, -⟩ := List.cons.inj hwords
        exact ⟨found, groups' ++ tail, rfl, hfound⟩

/-- **The forms of an address**: it begins with `::`, or with a group and a colon. -/
theorem parseGroups_cases (h : parseGroups words = some groups) :
    (∃ rest right, words = [] :: [] :: rest ∧ readRight rest = some right ∧ right.length ≤ 7 ∧
      groups = List.replicate (8 - right.length) 0 ++ right) ∨ Nonempty (Leads words groups) := by
  unfold parseGroups at h
  split at h
  · rename_i htake
    obtain ⟨right, hright, hfilled⟩ := Option.bind_eq_some_iff.mp h
    obtain ⟨hlength, hgroups⟩ := filled_eq_some hfilled
    rw [List.length_nil, Nat.zero_add] at hlength hgroups
    refine Or.inl ⟨words.drop 2, right, ?_, hright, hlength, hgroups⟩
    conv_lhs => rw [← List.take_append_drop 2 words, htake]
    rfl
  · right
    split at h
    · rename_i found hfound
      split at h
      · rename_i hlength
        obtain rfl := Option.some.inj h
        exact leads_of_readGroups hfound hlength
      · cases h
    · obtain ⟨⟨left, rest⟩, hleft, h⟩ := Option.bind_eq_some_iff.mp h
      simp only at h
      split at h
      · cases h
      · rename_i hne
        obtain ⟨right, hright, hfilled⟩ := Option.bind_eq_some_iff.mp h
        obtain ⟨-, hgroups⟩ := filled_eq_some hfilled
        rw [hgroups, List.append_assoc]
        exact leads_of_readLeft hleft hne _

theorem filled_spec (h : filled left right = some groups) (hleft : ∀ g ∈ left, g < 65536)
    (hright : ∀ g ∈ right, g < 65536) : groups.length = 8 ∧ ∀ g ∈ groups, g < 65536 := by
  obtain ⟨hlength, rfl⟩ := filled_eq_some h
  refine ⟨?_, fun g hg => ?_⟩
  · rw [List.length_append, List.length_append, List.length_replicate]
    omega
  · rw [List.mem_append, List.mem_append] at hg
    rcases hg with (hg | hg) | hg
    · exact hleft g hg
    · rw [List.eq_of_mem_replicate hg]
      decide
    · exact hright g hg

/-- An address has eight groups of 16 bits. -/
theorem parseGroups_spec (h : parseGroups words = some groups) :
    groups.length = 8 ∧ ∀ g ∈ groups, g < 65536 := by
  unfold parseGroups at h
  split at h
  · obtain ⟨right, hright, hfilled⟩ := Option.bind_eq_some_iff.mp h
    exact filled_spec hfilled (fun g hg => absurd hg List.not_mem_nil) (readRight_lt hright)
  · split at h
    · rename_i found hfound
      split at h
      · rename_i hlength
        obtain rfl := Option.some.inj h
        exact ⟨hlength, (readGroups_spec hfound).2⟩
      · cases h
    · obtain ⟨⟨left, rest⟩, hleft, h⟩ := Option.bind_eq_some_iff.mp h
      simp only at h
      split at h
      · cases h
      · obtain ⟨right, hright, hfilled⟩ := Option.bind_eq_some_iff.mp h
        exact filled_spec hfilled (readLeft_lt hleft) (readRight_lt hright)

end Words

/-! ## How a text begins -/

section Beginnings

variable {word text s : List Char} {group : ℕ} {digits p : List ℕ}

theorem prefix_hexText (hp : ∀ digit ∈ p, digit < 16) (hdigits : ∀ digit ∈ digits, digit < 16) :
    hexText p <+: hexText digits ++ ':' :: s ↔ p <+: digits := by
  induction p generalizing digits with
  | nil => simp [hexText]
  | cons a p ih =>
    have ha := hp a List.mem_cons_self
    cases digits with
    | nil =>
      have hcolon := (hexChar_ne_colon ha).1
      simp [hexText, hcolon]
    | cons b digits =>
      have hb := hdigits b List.mem_cons_self
      have hrest := @ih digits (fun d hd => hp d (List.mem_cons_of_mem _ hd))
        (fun d hd => hdigits d (List.mem_cons_of_mem _ hd))
      simp only [hexText, List.map_cons, List.cons_append, List.cons_prefix_cons] at hrest ⊢
      rw [hrest]
      exact and_congr_left' ⟨fun h => hexChar_inj ha hb h, fun h => by rw [h]⟩

/-- A text up to a colon. -/
theorem prefix_colon {p q w s : List Char} (hp : ':' ∉ p) (hw : ':' ∉ w)
    (hs : ∀ c, s.head? = some c → c ∉ p) (h : p ++ ':' :: q <+: w ++ s) :
    w = p ∧ ':' :: q <+: s := by
  induction p generalizing w with
  | nil =>
    cases w with
    | nil => exact ⟨rfl, h⟩
    | cons c w =>
      obtain ⟨rfl, -⟩ := List.cons_prefix_cons.mp h
      exact absurd List.mem_cons_self hw
  | cons a p ih =>
    cases w with
    | nil =>
      cases s with
      | nil => exact absurd h (by simp)
      | cons c s =>
        obtain ⟨rfl, -⟩ := List.cons_prefix_cons.mp h
        exact absurd List.mem_cons_self (hs a rfl)
    | cons c w =>
      obtain ⟨rfl, hrest⟩ := List.cons_prefix_cons.mp h
      obtain ⟨rfl, hq⟩ := ih (fun hmem => hp (List.mem_cons_of_mem _ hmem))
        (fun hmem => hw (List.mem_cons_of_mem _ hmem))
        (fun d hd hmem => hs d hd (List.mem_cons_of_mem _ hmem)) hrest
      exact ⟨rfl, hq⟩

theorem colon_not_mem_lower (h : ':' ∉ word) : ':' ∉ toLowerCase word := by
  intro hmem
  obtain ⟨c, hc, heq⟩ := List.mem_map.mp hmem
  rw [(toLower_eq_iff (by decide)).mp heq] at hc
  exact h hc

/-- The digits that begin a private group of four digits. -/
def PrivateStart (digits : List ℕ) : Prop :=
  [15, 12] <+: digits ∨ [15, 13] <+: digits ∨ [15, 14, 8] <+: digits ∨ [15, 14, 9] <+: digits ∨
    [15, 14, 10] <+: digits ∨ [15, 14, 11] <+: digits ∨ [15, 15] <+: digits

/-- The first groups of unique-local, link-local and multicast addresses. -/
def PrivateGroup (group : ℕ) : Prop :=
  (0xFC00 ≤ group ∧ group ≤ 0xFDFF) ∨ (0xFE80 ≤ group ∧ group ≤ 0xFEBF) ∨
    (0xFF00 ≤ group ∧ group ≤ 0xFFFF)

/-- What begins like a private group is one, or a short one. -/
theorem group_of_privateStart (h : Segment word group digits) (hstart : PrivateStart digits) :
    PrivateGroup group ∨ ShortPrivate group := by
  have hbound := h.bound
  have hlength := h.length
  rw [h.value]
  unfold PrivateStart at hstart
  unfold PrivateGroup ShortPrivate
  rcases digits with _ | ⟨a, _ | ⟨b, _ | ⟨c, _ | ⟨d, _ | ⟨e, rest⟩⟩⟩⟩⟩
  all_goals simp only [ofDigits, List.foldl_cons, List.foldl_nil, List.mem_cons, List.length_cons,
    List.length_nil, List.not_mem_nil, or_false, forall_eq_or_imp, forall_eq,
    List.cons_prefix_cons, List.prefix_nil, List.nil_prefix, reduceCtorEq, and_false, and_true,
    false_or] at hbound hlength hstart ⊢
  all_goals omega

/-- A private group has four digits and begins like one. -/
theorem privateStart_of_group (h : Segment word group digits) (hgroup : PrivateGroup group) :
    PrivateStart digits := by
  have hbound := h.bound
  have hlength := h.length
  have hlarge : 0xFC00 ≤ ofDigits 16 digits := by
    rw [← h.value]
    unfold PrivateGroup at hgroup
    omega
  rw [h.value] at hgroup
  unfold PrivateGroup at hgroup
  rcases digits with _ | ⟨a, _ | ⟨b, _ | ⟨c, _ | ⟨d, _ | ⟨e, rest⟩⟩⟩⟩⟩
  all_goals simp only [ofDigits, List.foldl_cons, List.foldl_nil, List.mem_cons, List.length_cons,
    List.length_nil, List.not_mem_nil, or_false, forall_eq_or_imp,
    forall_eq] at hbound hlength hlarge hgroup
  iterate 4 omega
  · have ha : a = 15 := by omega
    subst ha
    have hb : b = 12 ∨ b = 13 ∨ (b = 14 ∧ 8 ≤ c ∧ c ≤ 11) ∨ b = 15 := by omega
    unfold PrivateStart
    simp only [List.cons_prefix_cons, List.nil_prefix, true_and, and_true]
    omega
  · omega

theorem startsWith_iff {start : String} : startsWith text start ↔ start.toList <+: text :=
  List.isPrefixOf_iff_prefix

theorem hexText_ne_colon (h : Segment word group digits) (text : List Char) :
    hexText digits ++ ':' :: s ≠ ':' :: text := by
  intro heq
  cases hdigits : digits with
  | nil => exact h.ne_nil hdigits
  | cons a rest =>
    rw [hdigits] at heq
    exact (hexChar_ne_colon (h.bound a (hdigits ▸ List.mem_cons_self))).1 (List.cons.inj heq).1

theorem not_mapped_hexText (h : Segment word group digits) :
    startsWith (hexText digits ++ ':' :: s) "::ffff:" = false := by
  refine Bool.eq_false_iff.mpr fun hstart => ?_
  obtain ⟨t, ht⟩ := startsWith_iff.mp hstart
  exact hexText_ne_colon h _ ht.symm

/-- A text that begins with a group is taken for private by that group, or as documentation. -/
theorem beginsPrivate_hexText (h : Segment word group digits) :
    beginsPrivate (hexText digits ++ ':' :: s) ↔
      PrivateStart digits ∨ "2001:db8:".toList <+: hexText digits ++ ':' :: s := by
  have hstart : ∀ p : List ℕ, ∀ start : String, start.toList = hexText p →
      (∀ digit ∈ p, digit < 16) →
      (startsWith (hexText digits ++ ':' :: s) start ↔ p <+: digits) := by
    intro p start hstart hp
    rw [startsWith_iff, hstart]
    exact prefix_hexText hp h.bound
  unfold beginsPrivate PrivateStart
  simp only [Bool.or_eq_true, decide_eq_true_eq, List.any_cons, List.any_nil, Bool.or_false,
    hstart [15, 12] "fc" rfl (by decide), hstart [15, 13] "fd" rfl (by decide),
    hstart [15, 14, 8] "fe8" rfl (by decide), hstart [15, 14, 9] "fe9" rfl (by decide),
    hstart [15, 14, 10] "fea" rfl (by decide), hstart [15, 14, 11] "feb" rfl (by decide),
    hstart [15, 15] "ff" rfl (by decide), @startsWith_iff _ "2001:db8:"]
  have hone : hexText digits ++ ':' :: s ≠ "::".toList := hexText_ne_colon h _
  have htwo : hexText digits ++ ':' :: s ≠ "::1".toList := hexText_ne_colon h _
  tauto

end Beginnings

end PinnedHttps

end HoodSentry
