import HdfsBrowser.Client
import HdfsBrowser.Text.Column

/-!
# Host names beyond ASCII

A host name is written label by label in letters, digits and hyphens.  The
tables here are coarse: they know the letters of Latin-1, Greek and Cyrillic,
and the blocks that have no letters.
-/

namespace HdfsBrowser.Punycode

def base36 (n : Nat) : Char :=
  if n < 26 then Char.ofNat ('a'.toNat + n) else Char.ofNat ('0'.toNat + (n - 26))

def adaptLoop (delta k : Nat) : Nat × Nat :=
  if 455 < delta then adaptLoop (delta / 35) (k + 36) else (delta, k)
termination_by delta

def adapt (delta count : Nat) (first : Bool) : Nat :=
  let delta := if first then delta / 700 else delta / 2
  let (rest, k) := adaptLoop (delta + delta / count) 0
  k + 36 * rest / (rest + 38)

/-- The greatest digit value that ends a number at place `k`, plus one. -/
def threshold (k bias : Nat) : Nat := if k ≤ bias then 1 else min 26 (k - bias)

/-- A distance in digits of growing weight; a number of `fuel` bits fits. -/
def distanceDigits (bias : Nat) : Nat → Nat → Nat → List Char
  | 0, _, _ => []
  | fuel + 1, k, q =>
    let t := threshold k bias
    if q < t then [base36 q]
    else base36 (t + (q - t) % (36 - t)) :: distanceDigits bias fuel (k + 36) ((q - t) / (36 - t))

structure LabelState where
  out : List Char
  delta : Nat
  bias : Nat
  done : Nat

def scanChar (basic m : Nat) (st : LabelState) (c : Char) : LabelState :=
  if c.toNat < m then { st with delta := st.delta + 1 }
  else if c.toNat = m then
    { out := st.out ++ distanceDigits st.bias 64 36 st.delta
      delta := 0
      bias := adapt st.delta (st.done + 1) (st.done == basic)
      done := st.done + 1 }
  else st

def insertAll (input : List Char) (basic : Nat) : List Nat → Nat → LabelState → LabelState
  | [], _, st => st
  | m :: rest, n, st =>
    let st := { st with delta := st.delta + (m - n) * (st.done + 1) }
    let st := input.foldl (scanChar basic m) st
    insertAll input basic rest (m + 1) { st with delta := st.delta + 1 }

def encodedMark : List Char := ['x', 'n', '-', '-']

/-- A label in ASCII: its ASCII characters first, and then, for each other one in ascending
order, how far it lies from the one before. -/
def encode (cs : List Char) : List Char :=
  if cs.all (·.toNat < 0x80) then cs
  else
    let basic := cs.filter (·.toNat < 0x80)
    let others := ((cs.filter (0x80 ≤ ·.toNat)).map Char.toNat).mergeSort.eraseDups
    let st := insertAll cs basic.length others 0x80 ⟨[], 0, 72, basic.length⟩
    encodedMark ++ basic ++ (if basic.isEmpty then [] else ['-']) ++ st.out

/-! ## Reading of labels -/

def digit36? (c : Char) : Option Nat :=
  if c.isLower then some (c.toNat - 'a'.toNat)
  else if c.isDigit then some (c.toNat - '0'.toNat + 26)
  else none

def readDistance? (bias : Nat) (k weight sum : Nat) : List Char → Option (Nat × List Char)
  | [] => none
  | c :: cs => do
    let d ← digit36? c
    let t := threshold k bias
    let sum := sum + d * weight
    if d < t then some (sum, cs) else readDistance? bias (k + 36) (weight * (36 - t)) sum cs

/-- Puts each character whose distance is read in its place; there are no more of them than
digits. -/
def placeAll? (n place bias : Nat) (first : Bool) (out : List Char) :
    Nat → List Char → Option (List Char)
  | _, [] => some out
  | 0, _ => none
  | fuel + 1, cs => do
    let (delta, rest) ← readDistance? bias 36 1 0 cs
    let count := out.length + 1
    let n := n + (place + delta) / count
    let place := (place + delta) % count
    if n < 0x110000 then
      placeAll? n (place + 1) (adapt delta count first) false
        (out.take place ++ Char.ofNat n :: out.drop place) fuel rest
    else none

def decode? (cs : List Char) : Option (List Char) :=
  let digits := (cs.reverse.takeWhile (· != '-')).reverse
  placeAll? 0x80 0 72 true (cs.take (cs.length - digits.length - 1)) digits.length digits

/-! ## Characters of labels -/

def lowerChar (c : Char) : Char :=
  let n := c.toNat
  if n < 0x80 then c.toLower
  else if (0xC0 ≤ n ∧ n ≤ 0xDE ∧ n ≠ 0xD7) ∨ (0x391 ≤ n ∧ n ≤ 0x3A9) ∨ (0x410 ≤ n ∧ n ≤ 0x42F) then
    Char.ofNat (n + 0x20)
  else if 0x400 ≤ n ∧ n ≤ 0x40F then Char.ofNat (n + 0x50)
  else c

/-- Blocks beyond ASCII without letters: signs, symbols, compatibility forms, private use. -/
def symbolBlocks : List (Nat × Nat) :=
  [(0x80, 0xBF), (0xD7, 0xD7), (0xF7, 0xF7), (0x2000, 0x2BFF), (0x2E00, 0x2FFF), (0x3000, 0x3004),
   (0x3008, 0x3029), (0x3030, 0x303B), (0x3200, 0x33FF), (0xE000, 0xF8FF), (0xFE00, 0xFE1F),
   (0xFE30, 0xFE6F), (0xFF00, 0xFFFF), (0x1F000, 0x1FAFF), (0xE0000, 0x10FFFF)]

def isLabelChar (c : Char) : Bool :=
  let n := c.toNat
  if n < 0x80 then c.isLower || c.isDigit || c == '-'
  else !symbolBlocks.any fun (low, high) => low ≤ n && n ≤ high

def refused (message : String) : Fault := .client "IDNAError" message

def refusedChar (cs : List Char) (index : Nat) (c : Char) : Fault :=
  .client "InvalidCodepoint"
    ("Codepoint U+" ++ String.ofList ((Text.hexDigits 4 c.toNat).map Char.toUpper) ++
      " at position " ++ Numeral.text (index + 1) ++ " of " ++ Text.quoted (String.ofList cs) ++
      " not allowed")

def checkLabel (cs : List Char) : Except Fault Unit :=
  if cs.isEmpty then .error (refused "Empty Label")
  else if (cs.drop 2).take 2 = ['-', '-'] then
    .error (refused "Label has disallowed hyphens in 3rd and 4th position")
  else if cs.head? = some '-' ∨ cs.getLast? = some '-' then
    .error (refused "Label must not start or end with a hyphen")
  else
    match cs.zipIdx.find? fun (c, _) => !isLabelChar c with
    | some (c, index) => .error (refusedChar cs index c)
    | none => .ok ()

def shownLabel (cs : List Char) : Except Fault (List Char) :=
  if !encodedMark.isPrefixOf cs then (checkLabel cs).map fun _ => cs
  else
    let digits := cs.drop encodedMark.length
    if digits.isEmpty then
      .error (refused "Malformed A-label, no Punycode eligible content found")
    else if digits.getLast? = some '-' then
      .error (refused "A-label must not end with a hyphen")
    else
      match decode? digits with
      | none => .error (refused "Invalid A-label")
      | some label => (checkLabel label).map fun _ => label

/-! ## Names -/

def labelsOf (cs : List Char) : List (List Char) × List Char :=
  let dotted := cs.map fun c => if c ∈ ['\u3002', '\uFF0E', '\uFF61'] then '.' else c
  let labels := Text.splitOnChar '.' dotted
  if labels.getLast? = some [] then (labels.dropLast, ['.']) else (labels, [])

def encodeName? (name : String) : Option HostName := do
  let (labels, last) := labelsOf (name.toList.map lowerChar)
  let written ← labels.mapM fun cs => do
    let _ ← (shownLabel cs).toOption
    if (encode cs).length ≤ 63 then some (encode cs) else none
  let chars := List.intercalate ['.'] written ++ last
  if h : chars.all isHostNameChar = true then
    if chars.length ≤ 253 + last.length then some ⟨chars, h⟩ else none
  else none

def decodeName (name : String) : Except Fault String := do
  let (labels, last) := labelsOf name.toList
  if labels.isEmpty then .error (refused "Empty domain")
  else .ok (String.ofList (List.intercalate ['.'] (← labels.mapM shownLabel) ++ last))

end HdfsBrowser.Punycode
