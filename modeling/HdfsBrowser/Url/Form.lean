import HdfsBrowser.Url.Percent

/-!
# Queries

A list of pairs as the query of an address: keys and values are encoded alike,
with `+` for a blank, `=` inside a pair and `&` between pairs.  Pairs with one
key stand together at the place of the first.
-/

namespace HdfsBrowser.Form

def encodeChar (c : Char) : List Char :=
  if c = ' ' then ['+'] else Percent.encodeChar Percent.unreserved c

def encode (s : String) : List Char := s.toList.flatMap encodeChar

def pairChars (pair : String × String) : List Char := encode pair.1 ++ '=' :: encode pair.2

def pairsChars : List (String × String) → List Char
  | [] => []
  | [pair] => pairChars pair
  | pair :: next :: rest => pairChars pair ++ '&' :: pairsChars (next :: rest)

def addGrouped (pair : String × String) : List (String × String) → List (String × String)
  | [] => [pair]
  | first :: rest =>
    if first.1 = pair.1 then first :: afterKey rest else first :: addGrouped pair rest
where
  afterKey : List (String × String) → List (String × String)
    | [] => [pair]
    | next :: rest =>
      if next.1 = pair.1 then next :: afterKey rest else pair :: next :: rest

/-- The pairs, those with one key together. -/
def grouped (pairs : List (String × String)) : List (String × String) :=
  pairs.foldl (fun done pair => addGrouped pair done) []

def query (pairs : List (String × String)) : String := String.ofList (pairsChars (grouped pairs))

/-! ## Reading -/

def decodeBytes (cs : List Char) : Bytes :=
  Percent.decode (cs.map fun c => if c = '+' then ' ' else c)

end HdfsBrowser.Form
