import HdfsBrowser.Number.Power
import HdfsBrowser.Text.Blank
import HdfsBrowser.Text.Digit

/-!
# Integers in decimal

Writing and reading of integers.  A numeral may stand in white space, may have
a sign, may use the digits of any script and single bars between digits.
Conversions either way stop at `digitLimit` digits, whatever the value.
-/

namespace HdfsBrowser

inductive NumeralFault where
  | malformed (text : String)
  /-- More digits than are converted: how many, when reading. -/
  | tooLong (digits : Option Nat)
  deriving DecidableEq, Repr

namespace Numeral

def digitLimit : Nat := 4300

/-! ## Writing -/

def digits (n : Nat) : List Char := Nat.toDigits 10 n

def chars : Int → List Char
  | .ofNat n => digits n
  | .negSucc n => '-' :: digits (n + 1)

def text (n : Int) : String := String.ofList (chars n)

def Fits (n : Int) : Prop := n.natAbs < tenTo digitLimit

instance (n : Int) : Decidable (Fits n) := inferInstanceAs (Decidable (_ < _))

def write (n : Int) : Except NumeralFault String :=
  if Fits n then .ok (text n) else .error (.tooLong none)

def padded (width : Nat) (n : Int) : String :=
  let sign := if n < 0 then ['-'] else []
  let body := digits n.natAbs
  String.ofList (sign ++ List.replicate (width - sign.length - body.length) '0' ++ body)

/-! ## Reading -/

def valueOf (ds : List Nat) : Nat := ds.foldl (fun n d => n * 10 + d) 0

/-- The digits at the start and the rest; `none` where a bar is not between two digits.  The
first argument tells that a digit has to follow. -/
def readDigits : Bool → List Char → Option (List Nat × List Char)
  | owed, [] => if owed then none else some ([], [])
  | owed, c :: cs =>
    match Text.decimalDigit? c with
    | some d => (readDigits false cs).map fun (ds, rest) => (d :: ds, rest)
    | none =>
      if owed then none
      else if c = '_' then readDigits true cs
      else some ([], c :: cs)

def readSign : List Char → Bool × List Char
  | '+' :: cs => (false, cs)
  | '-' :: cs => (true, cs)
  | cs => (false, cs)

def signed (negative : Bool) (n : Nat) : Int := if negative then -n else n

def read (s : String) : Except NumeralFault Int :=
  let (negative, body) := readSign (Text.trimBy Text.isSpace s.toList)
  match readDigits true body with
  | none => .error (.malformed s)
  | some (ds, rest) =>
    if ds.length > digitLimit then .error (.tooLong (some ds.length))
    else if rest.isEmpty then .ok (signed negative (valueOf ds))
    else .error (.malformed s)

end Numeral

end HdfsBrowser
