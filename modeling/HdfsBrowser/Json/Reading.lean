import HdfsBrowser.Fault

/-!
# Reading of dynamic values

How the members of a payload become integers, texts and lists.  A value that
does not fit gives the fault that says how.
-/

namespace HdfsBrowser.Value

def asObject : Value → Except Fault (List (String × Value))
  | .object members => .ok members
  | v => .error (.noMethod v.kind "get")

def member (members : List (String × Value)) (key : String) (default : Value) : Value :=
  (lookup? key members).getD default

def ofBinary64 : Binary64 → Except Fault Int
  | .nan => .error .nanInteger
  | .infinite _ => .error .tooLarge
  | x => .ok (x.truncate?.getD 0)

/-- The integer that a value stands for: numbers lose their fraction, texts are numerals. -/
def asInteger : Value → Except Fault Int
  | .int n => .ok n
  | .bool b => .ok (if b then 1 else 0)
  | .float x => ofBinary64 x
  | .str s => (Numeral.read s).mapError .numeral
  | v => .error (.notInteger v.kind)

def asFloat : Value → Except Fault Binary64
  | .float x => .ok x
  | .bool b => .ok (.ofInt (if b then 1 else 0))
  | .int n =>
    let x := Binary64.ofInt n
    if x.isFinite then .ok x else .error .tooLarge
  | .str s =>
    match Decimal.read? s with
    | some x => .ok x
    | none => .error (.notNumber s)
  | v => .error (.notFloat v.kind)

def asText (v : Value) : Except Fault String := v.write.mapError .numeral

/-- What a loop over the value visits: items, keys, or characters. -/
def items : Value → Except Fault (List Value)
  | .list vs => .ok vs
  | .object members => .ok (members.map fun (key, _) => .str key)
  | .str s => .ok (s.toList.map fun c => .str (String.ofList [c]))
  | v => .error (.notIterable v.kind)

def size : Value → Except Fault Nat
  | .list vs => .ok vs.length
  | .object members => .ok members.length
  | .str s => .ok s.length
  | v => .error (.noLength v.kind)

end HdfsBrowser.Value
