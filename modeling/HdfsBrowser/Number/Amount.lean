import HdfsBrowser.Fault

/-!
# Amounts of bytes

An amount is shown in the largest unit that leaves at least one of it, with
one decimal place from kilobytes on.  The amount is first rounded to a binary
number of 64 bits.
-/

namespace HdfsBrowser.Amount

def units : List String := ["KB", "MB", "GB", "TB"]

/-- The amount `n / d`, at least 1024 of the unit before the first in the list. -/
def inUnits (n d : Nat) : List String → String
  | [] => ""
  | [name] => Decimal.oneDecimal n (d * 1024) ++ " " ++ name
  | name :: rest =>
    if n < d * 1024 * 1024 then Decimal.oneDecimal n (d * 1024) ++ " " ++ name
    else inUnits n (d * 1024) rest

def text (bytes : Int) : Except Fault String :=
  match Binary64.ofInt bytes with
  | .finite negative m e =>
    let (n, d) := Binary64.ratio m e
    if negative || n < d * 1024 then
      .ok (Numeral.text (Numeral.signed negative (n / d)) ++ " B")
    else .ok (inUnits n d units)
  | _ => .error .tooLarge

end HdfsBrowser.Amount
