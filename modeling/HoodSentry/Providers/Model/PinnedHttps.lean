import Mathlib.Data.Nat.Notation
/-!
# Public addresses

`packages/providers/src/pinned-https.ts`: which addresses a pinned request may
go to. Texts are lists of characters. `isIP` is the platform's: an IPv4 address
is four decimal numbers with no leading zeros, an IPv6 address is groups of up
to four hex digits, of which one `::` may leave out some, the last two may be an
IPv4 address, and a zone may follow.
-/

namespace HoodSentry

namespace PinnedHttps

/-! ## `isIP` -/

/-- The number a run of digits to a base stands for. -/
def ofDigits (base : ℕ) (digits : List ℕ) : ℕ :=
  digits.foldl (fun value digit => base * value + digit) 0

def decimalDigit (c : Char) : Option ℕ :=
  if '0' ≤ c && c ≤ '9' then some (c.toNat - 48) else none

def hexDigit (c : Char) : Option ℕ :=
  if '0' ≤ c && c ≤ '9' then some (c.toNat - 48)
  else if 'a' ≤ c && c ≤ 'f' then some (c.toNat - 87)
  else if 'A' ≤ c && c ≤ 'F' then some (c.toNat - 55)
  else none

/-- `25[0-5]|2[0-4]\d|1\d\d|[1-9]\d|\d`. -/
def v4Segment (word : List Char) : Option ℕ := do
  let digits ← word.mapM decimalDigit
  if digits = [0] || (digits.head?.any (0 < ·) && ofDigits 10 digits ≤ 255) then
    some (ofDigits 10 digits)
  else none

/-- The four bytes of an IPv4 address. -/
def parseIPv4 (text : List Char) : Option (List ℕ) := do
  let bytes ← (text.splitOn '.').mapM v4Segment
  if bytes.length = 4 then some bytes else none

/-- `[0-9a-fA-F]{1,4}`. -/
def v6Segment (word : List Char) : Option ℕ := do
  let digits ← word.mapM hexDigit
  if digits ≠ [] && digits.length ≤ 4 then some (ofDigits 16 digits) else none

/-- Two bytes a group. -/
def pairs : List ℕ → List ℕ
  | high :: low :: bytes => (256 * high + low) :: pairs bytes
  | _ => []

/-- The groups of the last word: an IPv4 address is two. -/
def lastGroups (word : List Char) : Option (List ℕ) :=
  match v6Segment word with
  | some group => some [group]
  | none => (parseIPv4 word).map pairs

def readGroups : List (List Char) → Option (List ℕ)
  | [] => none
  | word :: words =>
    if words = [] then lastGroups word
    else do
      let group ← v6Segment word
      let groups ← readGroups words
      return group :: groups

/-- The groups up to an empty word, and the words behind it. -/
def readLeft : List (List Char) → Option (List ℕ × List (List Char))
  | [] => none
  | word :: words =>
    if word = [] then some ([], words)
    else do
      let group ← v6Segment word
      let (groups, rest) ← readLeft words
      return (group :: groups, rest)

/-- The groups behind `::`: none where the text ends there. -/
def readRight (words : List (List Char)) : Option (List ℕ) :=
  if words = [[]] then some [] else readGroups words

/-- The eight groups, where `::` stands for at least one. -/
def filled (left right : List ℕ) : Option (List ℕ) :=
  if left.length + right.length ≤ 7 then
    some (left ++ List.replicate (8 - (left.length + right.length)) 0 ++ right)
  else none

/-- The eight groups of words that stand between colons. -/
def parseGroups (words : List (List Char)) : Option (List ℕ) :=
  if words.take 2 = [[], []] then (readRight (words.drop 2)).bind (filled [])
  else
    match readGroups words with
    | some groups => if groups.length = 8 then some groups else none
    | none => do
      let (left, rest) ← readLeft words
      if left = [] then none
      else
        let right ← readRight rest
        filled left right

/-- `(?:%[0-9a-zA-Z-.:]{1,})?`. -/
def isZone : List Char → Bool
  | [] => true
  | _ :: name => name ≠ [] && name.all fun c => c.isAlphanum || ['-', '.', ':'].contains c

/-- The eight groups of an IPv6 address. -/
def parseIPv6 (text : List Char) : Option (List ℕ) :=
  if isZone (text.dropWhile (· ≠ '%')) then
    parseGroups ((text.takeWhile (· ≠ '%')).splitOn ':')
  else none

def isIP (address : List Char) : ℕ :=
  if (parseIPv4 address).isSome then 4 else if (parseIPv6 address).isSome then 6 else 0

/-! ## `isPublicAddress` -/

/-- Of an address that `isIP` accepted each part is a run of digits. -/
def ipv4Number (address : List Char) : Option ℕ :=
  match (address.splitOn '.').mapM fun part => (part.mapM decimalDigit).map (ofDigits 10) with
  | some [a, b, c, d] =>
    if 255 < a || 255 < b || 255 < c || 255 < d then none
    else some ((a <<< 24) + (b <<< 16) + (c <<< 8) + d)
  | _ => none

def inIpv4Range (value base width : ℕ) : Bool :=
  let mask : BitVec 32 := if width = 0 then 0 else BitVec.allOnes 32 <<< (32 - width)
  (BitVec.ofNat 32 value &&& mask) = (BitVec.ofNat 32 base &&& mask)

def blocked : List (String × ℕ) :=
  [("0.0.0.0", 8), ("10.0.0.0", 8), ("100.64.0.0", 10), ("127.0.0.0", 8), ("169.254.0.0", 16),
    ("172.16.0.0", 12), ("192.0.0.0", 24), ("192.0.2.0", 24), ("192.168.0.0", 16),
    ("198.18.0.0", 15), ("198.51.100.0", 24), ("203.0.113.0", 24), ("224.0.0.0", 4),
    ("240.0.0.0", 4)]

/-- `startsWith`. -/
def startsWith (text : List Char) (start : String) : Bool := start.toList.isPrefixOf text

/-- What is no public address, but for the mapped ones, by how its text begins. -/
def beginsPrivate (normalized : List Char) : Bool :=
  normalized = "::".toList || normalized = "::1".toList || startsWith normalized "fc" ||
    startsWith normalized "fd" ||
    ["fe8", "fe9", "fea", "feb"].any (startsWith normalized) ||
    startsWith normalized "ff" || startsWith normalized "2001:db8:"

/-- `toLowerCase`, of a text that `isIP` accepted. -/
def toLowerCase (text : List Char) : List Char := text.map Char.toLower

theorem length_toLowerCase (text : List Char) : (toLowerCase text).length = text.length :=
  List.length_map _

def isPublicAddress (address : List Char) : Bool :=
  if isIP address = 4 then
    match ipv4Number address with
    | none => false
    | some value => !blocked.any fun range =>
      (ipv4Number range.1.toList).any fun numericBase => inIpv4Range value numericBase range.2
  else if isIP address ≠ 6 then false
  else if _h : startsWith (toLowerCase address) "::ffff:" then
    isPublicAddress ((toLowerCase address).drop 7)
  else !beginsPrivate (toLowerCase address)
termination_by address.length
decreasing_by
  have hlength := (List.isPrefixOf_iff_prefix.mp _h).length_le
  have hseven : "::ffff:".toList.length = 7 := rfl
  rw [length_toLowerCase] at hlength
  rw [List.length_drop, length_toLowerCase]
  omega

end PinnedHttps

end HoodSentry
