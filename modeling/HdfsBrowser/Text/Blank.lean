/-!
# Blank characters

The characters that count as blank around a word, and the two ways of cutting
them off.  Blanks are the Unicode white space together with the four
information separators U+001C to U+001F.
-/

namespace HdfsBrowser.Text

/-- Unicode white space: what may surround a number. -/
def isSpace (c : Char) : Bool :=
  let n := c.toNat
  (9 ≤ n && n ≤ 13) || n == 0x20 || n == 0x85 || n == 0xA0 || n == 0x1680 ||
    (0x2000 ≤ n && n ≤ 0x200A) || n == 0x2028 || n == 0x2029 || n == 0x202F ||
    n == 0x205F || n == 0x3000

/-- White space or an information separator: what may surround a word. -/
def isBlank (c : Char) : Bool :=
  isSpace c || (0x1C ≤ c.toNat && c.toNat ≤ 0x1F)

def trimEndBy (p : Char → Bool) (cs : List Char) : List Char :=
  (cs.reverse.dropWhile p).reverse

def trimBy (p : Char → Bool) (cs : List Char) : List Char :=
  trimEndBy p (cs.dropWhile p)

def strip (s : String) : String := String.ofList (trimBy isBlank s.toList)

def dropTrailing (c : Char) (s : String) : String :=
  String.ofList (trimEndBy (· == c) s.toList)

end HdfsBrowser.Text
