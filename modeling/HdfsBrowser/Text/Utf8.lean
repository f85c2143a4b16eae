/-!
# UTF-8

Encoding of text, and a reader that splits any sequence of bytes into
characters and ill-formed pieces.  An ill-formed piece is a longest start of
some character that does not go on as it should, or one byte that starts none;
`decode?` refuses such pieces and `decodeLossy` shows each as U+FFFD.
-/

namespace HdfsBrowser

abbrev Bytes := List UInt8

namespace Utf8

def encodeChar (c : Char) : Bytes :=
  let n := c.toNat
  if n < 0x80 then [UInt8.ofNat n]
  else if n < 0x800 then [UInt8.ofNat (0xC0 + n / 64), UInt8.ofNat (0x80 + n % 64)]
  else if n < 0x10000 then
    [UInt8.ofNat (0xE0 + n / 4096), UInt8.ofNat (0x80 + n / 64 % 64),
     UInt8.ofNat (0x80 + n % 64)]
  else
    [UInt8.ofNat (0xF0 + n / 262144), UInt8.ofNat (0x80 + n / 4096 % 64),
     UInt8.ofNat (0x80 + n / 64 % 64), UInt8.ofNat (0x80 + n % 64)]

def encode (s : String) : Bytes := s.toList.flatMap encodeChar

/-! ## Reading -/

/-- What the first byte of a character announces. -/
structure Lead where
  tail : Nat
  low : Nat
  high : Nat
  bits : Nat

def lead? (b : UInt8) : Option Lead :=
  let n := b.toNat
  if n < 0x80 then some ⟨0, 0x80, 0xBF, n⟩
  else if n < 0xC2 then none
  else if n < 0xE0 then some ⟨1, 0x80, 0xBF, n - 0xC0⟩
  else if n = 0xE0 then some ⟨2, 0xA0, 0xBF, 0⟩
  else if n = 0xED then some ⟨2, 0x80, 0x9F, 0xD⟩
  else if n < 0xF0 then some ⟨2, 0x80, 0xBF, n - 0xE0⟩
  else if n = 0xF0 then some ⟨3, 0x90, 0xBF, 0⟩
  else if n < 0xF4 then some ⟨3, 0x80, 0xBF, n - 0xF0⟩
  else if n = 0xF4 then some ⟨3, 0x80, 0x8F, 4⟩
  else none

/-- Reads the bytes that follow a first byte: the code point if all are there, and how many
were read. -/
def readTail : Nat → Nat → Nat → Nat → Bytes → Option Nat × Nat
  | 0, _, _, bits, _ => (some bits, 0)
  | _ + 1, _, _, _, [] => (none, 0)
  | tail + 1, low, high, bits, b :: bs =>
    if low ≤ b.toNat ∧ b.toNat ≤ high then
      let r := readTail tail 0x80 0xBF (bits * 64 + (b.toNat - 0x80)) bs
      (r.1, r.2 + 1)
    else (none, 0)

/-- The character or ill-formed piece that starts with `b`, and how many bytes of `bs` belong
to it. -/
def readChar (b : UInt8) (bs : Bytes) : Option Char × Nat :=
  match lead? b with
  | none => (none, 0)
  | some l =>
    let r := readTail l.tail l.low l.high l.bits bs
    (r.1.map Char.ofNat, r.2)

def pieces : Bytes → List (Option Char)
  | [] => []
  | b :: bs => (readChar b bs).1 :: pieces (bs.drop (readChar b bs).2)
termination_by bs => bs.length
decreasing_by simp only [List.length_drop, List.length_cons]; omega

def allChars? (ps : List (Option Char)) : Option (List Char) := ps.mapM id

def lossyChars (ps : List (Option Char)) : List Char := ps.map (·.getD '\uFFFD')

def decode? (bs : Bytes) : Option String := (allChars? (pieces bs)).map String.ofList

def decodeLossy (bs : Bytes) : String := String.ofList (lossyChars (pieces bs))

end Utf8

end HdfsBrowser
