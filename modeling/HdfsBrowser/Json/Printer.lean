import HdfsBrowser.Json.Literal

/-!
# JSON text

Writing of values as JSON in ASCII.  The inline layout keeps a value on one
line; the indented one gives each item and member a line of its own, two
blanks deeper than its parent.
-/

namespace HdfsBrowser.Json

/-! ## Strings -/

def escapeUnit (n : Nat) : List Char := ['\\', 'u'] ++ Text.hexDigits 4 n

def escapeChar (c : Char) : List Char :=
  if c = '"' ∨ c = '\\' then ['\\', c]
  else if c = '\n' then ['\\', 'n']
  else if c = '\r' then ['\\', 'r']
  else if c = '\t' then ['\\', 't']
  else if c.toNat = 8 then ['\\', 'b']
  else if c.toNat = 12 then ['\\', 'f']
  else if 0x20 ≤ c.toNat ∧ c.toNat < 0x7F then [c]
  else if c.toNat < 0x10000 then escapeUnit c.toNat
  else
    let n := c.toNat - 0x10000
    escapeUnit (0xD800 + n / 1024) ++ escapeUnit (0xDC00 + n % 1024)

def stringChars (s : String) : List Char :=
  '"' :: s.toList.flatMap escapeChar ++ ['"']

/-! ## Numbers -/

def floatChars : Binary64 → List Char
  | .nan => "NaN".toList
  | .infinite negative => if negative then "-Infinity".toList else "Infinity".toList
  | x => (Decimal.text x).toList

/-! ## Values -/

/-- Where items stand: after each other, or each on a line at a depth. -/
inductive Layout where
  | inline
  | indented (depth : Nat)
  deriving DecidableEq, Repr

def Layout.deeper : Layout → Layout
  | .inline => .inline
  | .indented depth => .indented (depth + 1)

def newline (depth : Nat) : List Char := '\n' :: List.replicate (2 * depth) ' '

def Layout.opening : Layout → List Char
  | .inline => []
  | .indented depth => newline depth

def Layout.between : Layout → List Char
  | .inline => [',', ' ']
  | .indented depth => ',' :: newline depth

mutual

def chars (layout : Layout) : Value → List Char
  | .null => "null".toList
  | .bool b => if b then "true".toList else "false".toList
  | .int n => Numeral.chars n
  | .float x => floatChars x
  | .str s => stringChars s
  | .list [] => ['[', ']']
  | .list (v :: vs) =>
    '[' :: layout.deeper.opening ++ chars layout.deeper v ++ itemChars layout.deeper vs ++
      layout.opening ++ [']']
  | .object [] => ['\x7b', '\x7d']
  | .object ((k, v) :: rest) =>
    '\x7b' :: layout.deeper.opening ++ stringChars k ++ [':', ' '] ++ chars layout.deeper v ++
      memberChars layout.deeper rest ++ layout.opening ++ ['\x7d']

def itemChars (layout : Layout) : List Value → List Char
  | [] => []
  | v :: vs => layout.between ++ chars layout v ++ itemChars layout vs

def memberChars (layout : Layout) : List (String × Value) → List Char
  | [] => []
  | (k, v) :: rest =>
    layout.between ++ stringChars k ++ [':', ' '] ++ chars layout v ++ memberChars layout rest

end

def line (v : Value) : String := String.ofList (chars .inline v)

def document (v : Value) : String := String.ofList (chars (.indented 0) v)

end HdfsBrowser.Json
