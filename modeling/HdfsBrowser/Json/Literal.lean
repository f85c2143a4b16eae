import HdfsBrowser.Json.Value
import HdfsBrowser.Number.Decimal
import HdfsBrowser.Text.Column
import HdfsBrowser.Text.Quoted

/-!
# Values in messages

The text of a value where a message or a page shows it: a text as it is, and
everything else in literal notation, which quotes the texts inside lists and
objects.
-/

namespace HdfsBrowser.Value

mutual

def literal : Value → String
  | .null => "None"
  | .bool b => if b then "True" else "False"
  | .int n => Numeral.text n
  | .float x => Decimal.text x
  | .str s => Text.quoted s
  | .list items => "[" ++ Text.joinWith ", " (literals items) ++ "]"
  | .object members => "\x7b" ++ Text.joinWith ", " (literalMembers members) ++ "\x7d"

def literals : List Value → List String
  | [] => []
  | v :: vs => literal v :: literals vs

def literalMembers : List (String × Value) → List String
  | [] => []
  | (k, v) :: rest => (Text.quoted k ++ ": " ++ literal v) :: literalMembers rest

end

def text : Value → String
  | .str s => s
  | v => literal v

mutual

/-- All integers in the value fit the limit on conversions. -/
def printable : Value → Bool
  | .int n => decide (Numeral.Fits n)
  | .list items => allPrintable items
  | .object members => membersPrintable members
  | _ => true

def allPrintable : List Value → Bool
  | [] => true
  | v :: vs => printable v && allPrintable vs

def membersPrintable : List (String × Value) → Bool
  | [] => true
  | (_, v) :: rest => printable v && membersPrintable rest

end

def write (v : Value) : Except NumeralFault String :=
  if v.printable then .ok v.text else .error (.tooLong none)

end HdfsBrowser.Value
