import HdfsBrowser.Number.Binary64
import HdfsBrowser.Number.Integer

/-!
# Decimal notation of floating point numbers

`Decimal.shortest` is the decimal with the fewest digits that rounds to a given
number, and of those the nearest to it.  `Decimal.text` writes it: in positions
while the point stands less than seventeen places to the right and less than
four zeros to the left of the first digit, with an exponent otherwise.
`Decimal.read?` reads the notations accepted for a number in a text.
-/

namespace HdfsBrowser.Decimal

/-! ## The shortest digits -/

/-- Bounds of the numbers that round to `mantissa * 2 ^ exponent`, in units of a quarter of
`2 ^ exponent`. -/
def bounds (mantissa : Nat) (exponent : Int) : Nat × Nat :=
  let below := if mantissa = Binary64.leastNormal ∧ Binary64.minExponent < exponent then 1 else 2
  (4 * mantissa - below, 4 * mantissa + 2)

def roundsTo (mantissa : Nat) (exponent : Int) (c : Nat) (g : Int) : Bool :=
  let (low, high) := bounds mantissa exponent
  let (a, b) := Binary64.ratio low (exponent - 2)
  let (a', b') := Binary64.ratio high (exponent - 2)
  let left := c * tenTo g.toNat
  let right := tenTo (-g).toNat
  if mantissa % 2 = 0 then a * right ≤ left * b && left * b' ≤ a' * right
  else a * right < left * b && left * b' < a' * right

def leading (n d : Nat) : Int :=
  ((Nat.toDigits 10 (n * tenTo 400 / d)).length : Int) - 401

def neighbours (n d : Nat) (g : Int) : List Nat :=
  let a := n * tenTo (-g).toNat
  let b := d * tenTo g.toNat
  let q := a / b
  let r := a % b
  if 2 * r < b ∨ (2 * r = b ∧ q % 2 = 0) then [q, q + 1] else [q + 1, q]

def search (mantissa : Nat) (exponent top : Int) : Nat → Int → Option (Nat × Int)
  | 0, _ => none
  | fuel + 1, count =>
    let g := top - count + 1
    let (n, d) := Binary64.ratio mantissa exponent
    match (neighbours n d g).find? (roundsTo mantissa exponent · g) with
    | some c => some (c, g)
    | none => search mantissa exponent top fuel (count + 1)

/-- Digits and exponent of the shortest decimal that rounds to a number other than zero; seventeen
digits always suffice. -/
def shortest (mantissa : Nat) (exponent : Int) : Nat × Int :=
  let (n, d) := Binary64.ratio mantissa exponent
  (search mantissa exponent (leading n d) 17 1).getD (n / d, 0)

/-! ## Writing -/

def placed (c : Nat) (g : Int) : List Char × Int :=
  let ds := Numeral.digits c
  (Text.trimEndBy (· == '0') ds, ds.length + g)

def positional (ds : List Char) (point : Int) : List Char :=
  if point ≤ 0 then ['0', '.'] ++ List.replicate (-point).toNat '0' ++ ds
  else
    let n := point.toNat
    if ds.length ≤ n then ds ++ List.replicate (n - ds.length) '0' ++ ['.', '0']
    else ds.take n ++ ['.'] ++ ds.drop n

def scientific (ds : List Char) (point : Int) : List Char :=
  let e := point - 1
  let body := match ds with
    | [] => []
    | [d] => [d]
    | d :: rest => d :: '.' :: rest
  let places := Numeral.digits e.natAbs
  body ++ ['e', if e < 0 then '-' else '+'] ++ List.replicate (2 - places.length) '0' ++ places

def finiteChars (mantissa : Nat) (exponent : Int) : List Char :=
  if mantissa = 0 then ['0', '.', '0']
  else
    let (c, g) := shortest mantissa exponent
    let (ds, point) := placed c g
    if point ≤ -4 ∨ 16 < point then scientific ds point else positional ds point

def text : Binary64 → String
  | .nan => "nan"
  | .infinite negative => if negative then "-inf" else "inf"
  | .finite negative m e =>
    String.ofList ((if negative then ['-'] else []) ++ finiteChars m e)

def oneDecimal (n d : Nat) : String :=
  let tenths := roundDiv (n * 10) d
  String.ofList (Numeral.digits (tenths / 10) ++ ['.'] ++ Numeral.digits (tenths % 10))

/-! ## Reading -/

def spanDigits (cs : List Char) : List Nat × List Char :=
  ((cs.takeWhile Char.isDigit).map fun c => c.toNat - '0'.toNat, cs.dropWhile Char.isDigit)

def readMantissa? (cs : List Char) : Option (List Nat × List Nat × List Char) :=
  let (whole, rest) := spanDigits cs
  let (part, rest) := match rest with
    | '.' :: more => spanDigits more
    | _ => ([], rest)
  if whole.isEmpty && part.isEmpty then none else some (whole, part, rest)

def readExponent? : List Char → Option Int
  | [] => some 0
  | c :: cs =>
    if c = 'e' ∨ c = 'E' then
      let (negative, body) := Numeral.readSign cs
      let (ds, rest) := spanDigits body
      if ds.isEmpty || !rest.isEmpty then none
      else some (Numeral.signed negative (Numeral.valueOf ds))
    else none

def readUnsigned? (negative : Bool) (cs : List Char) : Option Binary64 :=
  let word := String.ofList (cs.map Char.toLower)
  if word = "inf" ∨ word = "infinity" then some (.infinite negative)
  else if word = "nan" then some .nan
  else do
    let (whole, part, rest) ← readMantissa? cs
    let e ← readExponent? rest
    return .ofDecimal negative (Numeral.valueOf (whole ++ part)) (e - part.length)

def dropBars? : Bool → List Char → Option (List Char)
  | _, [] => some []
  | afterDigit, '_' :: c :: cs =>
    if afterDigit && c.isDigit then (dropBars? true cs).map (c :: ·) else none
  | _, ['_'] => none
  | _, c :: cs => (dropBars? c.isDigit cs).map (c :: ·)

def toAsciiDigit (c : Char) : Char :=
  match Text.decimalDigit? c with
  | some d => Char.ofNat ('0'.toNat + d)
  | none => c

def read? (s : String) : Option Binary64 := do
  let cs := (Text.trimBy Text.isSpace s.toList).map toAsciiDigit
  let (negative, body) := Numeral.readSign (← dropBars? false cs)
  readUnsigned? negative body

end HdfsBrowser.Decimal
