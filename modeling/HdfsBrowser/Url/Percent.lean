import HdfsBrowser.Text.Digit
import HdfsBrowser.Text.Utf8

/-!
# Percent encoding

A character that may not stand for itself is written as the bytes of its UTF-8
form, each as `%` and two upper-case hexadecimal digits.  What may stand for
itself depends on the part of the address.
-/

namespace HdfsBrowser.Percent

def digit (n : Nat) : Char := (Text.hexDigit n).toUpper

def byte (b : UInt8) : List Char := ['%', digit (b.toNat / 16), digit (b.toNat % 16)]

def encodeChar (safe : Char → Bool) (c : Char) : List Char :=
  if safe c then [c] else (Utf8.encodeChar c).flatMap byte

def encode (safe : Char → Bool) (cs : List Char) : List Char := cs.flatMap (encodeChar safe)

/-- The bytes that a text stands for: `%` before two hexadecimal digits gives one byte. -/
def decode : List Char → Bytes
  | [] => []
  | '%' :: a :: b :: rest =>
    match Text.hexDigit? a, Text.hexDigit? b with
    | some high, some low => UInt8.ofNat (high * 16 + low) :: decode rest
    | _, _ => 0x25 :: decode (a :: b :: rest)
  | c :: rest => Utf8.encodeChar c ++ decode rest
termination_by cs => cs.length

/-! ## Safe characters -/

def visibleExcept (excluded : List Char) (c : Char) : Bool :=
  0x20 < c.toNat && c.toNat < 0x7F && !excluded.contains c

def fragmentSafe (c : Char) : Bool := visibleExcept ['"', '<', '>', '`'] c

def querySafe (c : Char) : Bool := visibleExcept ['"', '#', '<', '>'] c

def pathSafe (c : Char) : Bool :=
  visibleExcept ['"', '#', '<', '>', '?', '`', '\x7b', '\x7d'] c

def userSafe (c : Char) : Bool :=
  visibleExcept ['"', '#', '<', '>', '?', '`', '\x7b', '\x7d', '/', ';', '=', '@', '[', '\\',
    ']', '^', '|'] c

def unreserved (c : Char) : Bool :=
  c.isAlphanum || c == '-' || c == '.' || c == '_' || c == '~'

def hostSafe (c : Char) : Bool :=
  unreserved c || ['!', '$', '&', '\'', '(', ')', '*', '+', ',', ';', '=', '"', '`', '\x7b',
    '\x7d', '%', '|', '\\'].contains c

end HdfsBrowser.Percent
