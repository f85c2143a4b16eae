import HdfsBrowser.Text.Column
import HdfsBrowser.Text.Utf8

/-!
# Character sets

The encodings in which a gateway may send text.  Each splits a sequence of
bytes into characters and ill-formed pieces, as UTF-8 does.
-/

namespace HdfsBrowser

inductive ByteOrder where
  | big
  | little
  deriving DecidableEq, Repr

/-- An encoding; `none` as byte order leaves it to a mark at the start. -/
inductive Charset where
  | ascii
  | latin1
  | latin9
  | windows1252
  | utf8
  /-- UTF-8 whose leading U+FEFF is a signature and no text. -/
  | utf8Signed
  | utf16 (order : Option ByteOrder)
  | utf32 (order : Option ByteOrder)
  deriving DecidableEq, Repr

namespace Charset

def unit16 (order : ByteOrder) (a b : UInt8) : Nat :=
  match order with
  | .big => a.toNat * 256 + b.toNat
  | .little => b.toNat * 256 + a.toNat

def scalar? (n : Nat) : Option Char :=
  if n < 0xD800 ∨ (0xE000 ≤ n ∧ n < 0x110000) then some (Char.ofNat n) else none

def pieces16 (order : ByteOrder) : Bytes → List (Option Char)
  | [] => []
  | [_] => [none]
  | a :: b :: c :: d :: rest =>
    let high := unit16 order a b
    let low := unit16 order c d
    if 0xD800 ≤ high ∧ high < 0xDC00 then
      if 0xDC00 ≤ low ∧ low < 0xE000 then
        some (Char.ofNat (0x10000 + (high - 0xD800) * 1024 + (low - 0xDC00))) ::
          pieces16 order rest
      else none :: pieces16 order (c :: d :: rest)
    else scalar? high :: pieces16 order (c :: d :: rest)
  | [a, b, c] =>
    let high := unit16 order a b
    if 0xD800 ≤ high ∧ high < 0xDC00 then [none]
    else scalar? high :: pieces16 order [c]
  | [a, b] => [scalar? (unit16 order a b)]
termination_by bs => bs.length

def pieces32 (order : ByteOrder) : Bytes → List (Option Char)
  | a :: b :: c :: d :: rest =>
    let n := match order with
      | .big => unit16 .big a b * 65536 + unit16 .big c d
      | .little => unit16 .little c d * 65536 + unit16 .little a b
    scalar? n :: pieces32 order rest
  | [] => []
  | _ => [none]
termination_by bs => bs.length

def latin9Signs : List (Nat × Char) :=
  [(0xA4, '\u20AC'), (0xA6, '\u0160'), (0xA8, '\u0161'), (0xB4, '\u017D'), (0xB8, '\u017E'),
   (0xBC, '\u0152'), (0xBD, '\u0153'), (0xBE, '\u0178')]

def latin9Char (b : UInt8) : Char := (latin9Signs.lookup b.toNat).getD (Char.ofNat b.toNat)

def windowsSigns : List Nat :=
  [0x20AC, 0, 0x201A, 0x0192, 0x201E, 0x2026, 0x2020, 0x2021, 0x02C6, 0x2030, 0x0160, 0x2039,
   0x0152, 0, 0x017D, 0, 0, 0x2018, 0x2019, 0x201C, 0x201D, 0x2022, 0x2013, 0x2014, 0x02DC,
   0x2122, 0x0161, 0x203A, 0x0153, 0, 0x017E, 0x0178]

def windowsChar? (b : UInt8) : Option Char :=
  if b.toNat < 0x80 then some (Char.ofNat b.toNat)
  else
    match windowsSigns[b.toNat - 0x80]? with
    | some 0 => none
    | some n => some (Char.ofNat n)
    | none => some (Char.ofNat b.toNat)

def pieces : Charset → Bytes → List (Option Char)
  | .ascii, bs => bs.map fun b => if b < 0x80 then some (Char.ofNat b.toNat) else none
  | .latin1, bs => bs.map fun b => some (Char.ofNat b.toNat)
  | .latin9, bs => bs.map fun b => some (latin9Char b)
  | .windows1252, bs => bs.map windowsChar?
  | .utf8, bs => Utf8.pieces bs
  | .utf8Signed, bs =>
    match Utf8.pieces bs with
    | some '\uFEFF' :: ps => ps
    | ps => ps
  | .utf16 (some order), bs => pieces16 order bs
  | .utf16 none, bs =>
    match bs with
    | 0xFE :: 0xFF :: rest => pieces16 .big rest
    | 0xFF :: 0xFE :: rest => pieces16 .little rest
    | _ => pieces16 .little bs
  | .utf32 (some order), bs => pieces32 order bs
  | .utf32 none, bs =>
    match bs with
    | 0 :: 0 :: 0xFE :: 0xFF :: rest => pieces32 .big rest
    | 0xFF :: 0xFE :: 0 :: 0 :: rest => pieces32 .little rest
    | _ => pieces32 .little bs

/-- Nothing tells the byte order. -/
def lacksMark : Charset → Bytes → Bool
  | .utf16 none, bs => 2 ≤ bs.length && bs.take 2 ∉ [[0xFE, 0xFF], [0xFF, 0xFE]]
  | .utf32 none, bs => 4 ≤ bs.length && bs.take 4 ∉ [[0, 0, 0xFE, 0xFF], [0xFF, 0xFE, 0, 0]]
  | _, _ => false

def family : Charset → String
  | .utf32 _ => "UTF-32"
  | _ => "UTF-16"

def decode? (charset : Charset) (bs : Bytes) : Option String :=
  (Utf8.allChars? (charset.pieces bs)).map String.ofList

def decodeLossy (charset : Charset) (bs : Bytes) : String :=
  String.ofList (Utf8.lossyChars (charset.pieces bs))

def names : List (Charset × List String) :=
  [(.utf8, ["utf-8", "utf8", "u8", "utf", "utf8-ucs2", "utf8-ucs4", "cp65001"]),
   (.latin1, ["iso-8859-1", "iso8859-1", "iso8859", "8859", "latin-1", "latin1", "latin",
     "l1", "cp819", "csisolatin1", "ibm819", "iso-8859-1-1987", "iso-ir-100"]),
   (.latin9, ["iso-8859-15", "iso8859-15", "latin9", "l9"]),
   (.windows1252, ["windows-1252", "cp1252", "1252"]),
   (.ascii, ["us-ascii", "ascii", "us", "646", "ansi-x3.4-1968", "ansi-x3-4-1968",
     "ansi-x3.4-1986", "cp367", "csascii", "ibm367", "iso646-us", "iso-646.irv-1991",
     "iso-ir-6"]),
   (.utf8Signed, ["utf-8-sig"]),
   (.utf16 none, ["utf-16", "utf16", "u16"]),
   (.utf16 (some .big), ["utf-16be", "utf-16-be", "unicodebigunmarked"]),
   (.utf16 (some .little), ["utf-16le", "utf-16-le", "unicodelittleunmarked"]),
   (.utf32 none, ["utf-32", "utf32", "u32"]),
   (.utf32 (some .big), ["utf-32be", "utf-32-be"]),
   (.utf32 (some .little), ["utf-32le", "utf-32-le"])]

def plainName (name : String) : String :=
  let marked := name.toList.map fun c => if c.isAlphanum || c == '.' then c.toLower else '-'
  Text.joinWith "-" (((Text.splitOnChar '-' marked).filter (!·.isEmpty)).map String.ofList)

def ofName? (name : String) : Option Charset :=
  (names.find? fun (_, known) => known.contains (plainName name)).map (·.1)

end Charset

end HdfsBrowser
