import HdfsBrowser.Json.Reading

/-!
# Permission bits

Three forms of the same bits: a number whose decimal digits are octal digits
(755 is `rwxr-xr-x`, 1777 adds the sticky bit), ten flags, and ten characters
such as `drwxr-xr-t`.  The sticky bit is shown on the last character: `t` when
others may execute, `T` when they may not.
-/

namespace HdfsBrowser.Permission

/-- The ten bits, in the order in which they are shown. -/
structure Flags where
  sticky : Bool
  ownerRead : Bool
  ownerWrite : Bool
  ownerExecute : Bool
  groupRead : Bool
  groupWrite : Bool
  groupExecute : Bool
  otherRead : Bool
  otherWrite : Bool
  otherExecute : Bool
  deriving DecidableEq, Repr

def Flags.toList (f : Flags) : List Bool :=
  [f.sticky, f.ownerRead, f.ownerWrite, f.ownerExecute, f.groupRead, f.groupWrite,
   f.groupExecute, f.otherRead, f.otherWrite, f.otherExecute]

def Flags.ofList? : List Bool → Option Flags
  | [s, ur, uw, ux, gr, gw, gx, r, w, x] => some ⟨s, ur, uw, ux, gr, gw, gx, r, w, x⟩
  | _ => none

/-! ## Numbers -/

def maxBits : Nat := 7777

def parse (given : Value) : Except Fault Nat := do
  let shown ← given.asText
  let digits := Text.trimBy Text.isBlank shown.toList
  if digits.isEmpty || !digits.all Text.isDigit then .error (.rejected (.notOctal shown))
  else if digits.any (fun c => c == '8' || c == '9') then
    .error (.rejected (.octalDigit shown))
  else do
    let bits ← (Numeral.read (String.ofList digits)).mapError .numeral
    if (maxBits : Int) < bits then .error (.rejected (.bitsRange shown))
    else .ok bits.toNat

def format (bits : Int) : String := Numeral.padded 3 bits

def weights : List Nat := [1000, 400, 200, 100, 40, 20, 10, 4, 2, 1]

def encode (f : Flags) : Nat :=
  (weights.zip f.toList).foldr (fun (weight, on) n => if on then weight + n else n) 0

def flagsOfValue (v : Value) : Except Fault Flags := do
  let count ← v.size
  if count ≠ 10 then .error (.rejected (.flagCount count))
  else do
    let vs ← v.items
    match Flags.ofList? (vs.map Value.truthy) with
    | some f => .ok f
    | none => .error (.rejected (.flagCount count))

/-! ## Characters -/

def triad (digit : Nat) : List Char :=
  [if digit / 4 % 2 = 1 then 'r' else '-', if digit / 2 % 2 = 1 then 'w' else '-',
   if digit % 2 = 1 then 'x' else '-']

def lastChar (sticky execute : Bool) : Char :=
  if sticky then if execute then 't' else 'T'
  else if execute then 'x' else '-'

def bodyChars (bits : Nat) : List Char :=
  let other := triad (bits % 10)
  triad (bits / 100 % 10) ++ triad (bits / 10 % 10) ++ other.take 2 ++
    [lastChar (bits / 1000 % 2 = 1) (bits % 2 = 1)]

def symbolic (bits : Nat) (isDirectory : Bool) : String :=
  String.ofList ((if isDirectory then 'd' else '-') :: bodyChars bits)

def hasTriads (bits : Nat) : Bool :=
  bits % 10 < 8 && bits / 10 % 10 < 8 && bits / 100 % 10 < 8

/-- The ten characters of a permission given as a text or a number.  Digits of
other scripts are not checked by `parse`, so that a triad may be missing. -/
def decode (given : Value) (isDirectory : Bool) : Except Fault String := do
  let bits ← parse given
  if hasTriads bits then .ok (symbolic bits isDirectory) else .error .noEntry

def allowedChars : List (List Char) :=
  [['r', '-'], ['w', '-'], ['x', '-'], ['r', '-'], ['w', '-'], ['x', '-'],
   ['r', '-'], ['w', '-'], ['x', '-', 't', 'T']]

/-- The flags of ten characters, after which any number of `+` may stand. -/
def ofSymbolic (given : String) : Except Fault Flags :=
  let refused : Except Fault Flags := .error (.rejected (.symbolic given))
  match Text.trimEndBy (· == '+') given.toList with
  | kind :: body =>
    if body.length = 9 ∧ (kind = 'd' ∨ kind = '-') ∧
        (allowedChars.zip body).all (fun (allowed, c) => allowed.contains c) then
      let last := body.getLast?.getD '-'
      let bits := (last == 't' || last == 'T') :: (body.take 8).map (· != '-') ++
        [last == 'x' || last == 't']
      match Flags.ofList? bits with
      | some f => .ok f
      | none => refused
    else refused
  | [] => refused

def flagsOfBits (given : Value) : Except Fault Flags := do
  ofSymbolic (← decode given false)

/-! ## Input -/

inductive Input where
  /-- A number, a numeral, or a list of ten values. -/
  | bits (given : Value)
  | flags (f : Flags)
  deriving DecidableEq, Repr

def Input.digits : Input → Except Fault String
  | .flags f => .ok (format (encode f))
  | .bits given =>
    match given with
    | .int _ | .bool _ | .str _ => (parse given).map fun bits => format bits
    | _ => (flagsOfValue given).map fun f => format (encode f)

end HdfsBrowser.Permission
