import HdfsBrowser.Json.Value
import HdfsBrowser.Number.Decimal
import HdfsBrowser.Text.Charset

/-!
# Reading of JSON

The grammar is strict: no comments, no comma at the end, no control characters
in strings.  `NaN`, `Infinity` and `-Infinity` are numbers.  Of two members
with one key the later gives the value and the earlier the place.

Every function takes the characters that are left and gives back those after
what it read.  The numbers that bound the recursion start above the number of
characters and fall with each character read, so no text runs out of them.
-/

namespace HdfsBrowser.Json

inductive ParseFault where
  | malformed
  /-- An integer with more digits than are converted. -/
  | numeral (fault : NumeralFault)
  deriving DecidableEq, Repr

def isWhite (c : Char) : Bool := c == ' ' || c == '\t' || c == '\n' || c == '\r'

def skipWhite (cs : List Char) : List Char := cs.dropWhile isWhite

/-! ## Strings -/

def readUnit? : List Char → Option (Nat × List Char)
  | a :: b :: c :: d :: rest => do
    let n ← [a, b, c, d].foldlM (fun n x => (Text.hexDigit? x).map (n * 16 + ·)) 0
    return (n, rest)
  | _ => none

def simpleEscape? (c : Char) : Option Char :=
  if c = '"' ∨ c = '\\' ∨ c = '/' then some c
  else if c = 'b' then some '\x08'
  else if c = 'f' then some '\x0c'
  else if c = 'n' then some '\n'
  else if c = 'r' then some '\r'
  else if c = 't' then some '\t'
  else none

def readLow? : List Char → Option (Nat × List Char)
  | '\\' :: 'u' :: rest => (readUnit? rest).filter fun (n, _) => 0xDC00 ≤ n && n < 0xE000
  | _ => none

/-- The character of an escape after its backslash.  A surrogate without its other half has no
character and gives U+FFFD. -/
def readEscape? : List Char → Option (Char × List Char)
  | 'u' :: rest => do
    let (n, rest) ← readUnit? rest
    if 0xD800 ≤ n ∧ n < 0xDC00 then
      match readLow? rest with
      | some (low, after) =>
        return (Char.ofNat (0x10000 + (n - 0xD800) * 1024 + (low - 0xDC00)), after)
      | none => return ('\uFFFD', rest)
    else return ((Charset.scalar? n).getD '\uFFFD', rest)
  | c :: rest => (simpleEscape? c).map (·, rest)
  | [] => none

def readString : Nat → List Char → Except ParseFault (List Char × List Char)
  | 0, _ => .error .malformed
  | _ + 1, [] => .error .malformed
  | fuel + 1, c :: cs =>
    if c = '"' then .ok ([], cs)
    else if c = '\\' then
      match readEscape? cs with
      | none => .error .malformed
      | some (e, rest) => do
        let (tail, rest) ← readString fuel rest
        .ok (e :: tail, rest)
    else if c.toNat < 0x20 then .error .malformed
    else do
      let (tail, rest) ← readString fuel cs
      .ok (c :: tail, rest)

def string (fuel : Nat) (cs : List Char) : Except ParseFault (String × List Char) := do
  let (body, rest) ← readString fuel cs
  .ok (String.ofList body, rest)

/-! ## Numbers -/

def readWhole? (cs : List Char) : Option (List Nat × List Char) :=
  match Decimal.spanDigits cs with
  | ([], _) => none
  | (0 :: _, _) => some ([0], cs.drop 1)
  | (ds, rest) => some (ds, rest)

def readPart? : List Char → Option (List Nat × List Char)
  | '.' :: cs =>
    match Decimal.spanDigits cs with
    | ([], _) => none
    | (ds, rest) => some (ds, rest)
  | _ => none

def readPower? : List Char → Option (Int × List Char)
  | c :: cs =>
    if c = 'e' ∨ c = 'E' then
      let (negative, body) := Numeral.readSign cs
      match Decimal.spanDigits body with
      | ([], _) => none
      | (ds, rest) => some (Numeral.signed negative (Numeral.valueOf ds), rest)
    else none
  | [] => none

def unsigned (negative : Bool) (cs : List Char) : Except ParseFault (Value × List Char) :=
  match readWhole? cs with
  | none => .error .malformed
  | some (whole, rest) =>
    let part := readPart? rest
    let rest := (part.map (·.2)).getD rest
    let power := readPower? rest
    let rest := (power.map (·.2)).getD rest
    if part.isNone && power.isNone then
      if whole.length > Numeral.digitLimit then
        .error (.numeral (.tooLong (some whole.length)))
      else .ok (.int (Numeral.signed negative (Numeral.valueOf whole)), rest)
    else
      let places := (part.map (·.1)).getD []
      let e := (power.map (·.1)).getD 0
      .ok (.float (.ofDecimal negative (Numeral.valueOf (whole ++ places)) (e - places.length)),
        rest)

def afterWord? (word : String) (cs : List Char) : Option (List Char) :=
  if word.toList.isPrefixOf cs then some (cs.drop word.length) else none

def number (cs : List Char) : Except ParseFault (Value × List Char) :=
  match cs with
  | '-' :: body =>
    match afterWord? "Infinity" body with
    | some rest => .ok (.float (.infinite true), rest)
    | none => unsigned true body
  | _ => unsigned false cs

def words : List (String × Value) :=
  [("null", .null), ("true", .bool true), ("false", .bool false), ("NaN", .float .nan),
   ("Infinity", .float (.infinite false))]

def readWord? (cs : List Char) : Option (Value × List Char) :=
  words.findSome? fun (word, v) => (afterWord? word cs).map (v, ·)

/-! ## Values -/

mutual

def value : Nat → List Char → Except ParseFault (Value × List Char)
  | 0, _ => .error .malformed
  | fuel + 1, cs =>
    match cs with
    | '"' :: rest => do
      let (s, rest) ← string fuel rest
      .ok (.str s, rest)
    | '[' :: rest =>
      match skipWhite rest with
      | ']' :: rest => .ok (.list [], rest)
      | rest => do
        let (vs, rest) ← items fuel rest
        .ok (.list vs, rest)
    | '\x7b' :: rest =>
      match skipWhite rest with
      | '\x7d' :: rest => .ok (.object [], rest)
      | rest => do
        let (pairs, rest) ← members fuel rest
        .ok (.object (Value.ofPairs pairs), rest)
    | _ =>
      match readWord? cs with
      | some (v, rest) => .ok (v, rest)
      | none => number cs

def items : Nat → List Char → Except ParseFault (List Value × List Char)
  | 0, _ => .error .malformed
  | fuel + 1, cs => do
    let (v, rest) ← value fuel cs
    match skipWhite rest with
    | ']' :: rest => .ok ([v], rest)
    | ',' :: rest => do
      let (vs, rest) ← items fuel (skipWhite rest)
      .ok (v :: vs, rest)
    | _ => .error .malformed

def members : Nat → List Char → Except ParseFault (List (String × Value) × List Char)
  | 0, _ => .error .malformed
  | fuel + 1, cs =>
    match cs with
    | '"' :: rest => do
      let (key, rest) ← string fuel rest
      match skipWhite rest with
      | ':' :: rest => do
        let (v, rest) ← value fuel (skipWhite rest)
        match skipWhite rest with
        | '\x7d' :: rest => .ok ([(key, v)], rest)
        | ',' :: rest => do
          let (more, rest) ← members fuel (skipWhite rest)
          .ok ((key, v) :: more, rest)
        | _ => .error .malformed
      | _ => .error .malformed
    | _ => .error .malformed

end

def parse (s : String) : Except ParseFault Value := do
  let cs := skipWhite s.toList
  let (v, rest) ← value (cs.length + 1) cs
  if (skipWhite rest).isEmpty then .ok v else .error .malformed

end HdfsBrowser.Json
