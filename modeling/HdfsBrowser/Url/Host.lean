import HdfsBrowser.Client
import HdfsBrowser.Url.Percent

/-!
# Hosts

A host is an address of four numbers, an address of eight hexadecimal groups
in brackets, or a name.  Names are in lower case; the client library writes a
name with characters beyond ASCII in ASCII.
-/

namespace HdfsBrowser.Host

/-! ## Four numbers -/

/-- Digits to the end with `count` single characters between runs of them. -/
def digitRuns : Nat → List Char → Bool
  | count, [] => count == 0
  | count, [c] => count == 0 && c.isDigit
  | count, c :: d :: rest =>
    (c.isDigit && digitRuns count (d :: rest)) ||
      (0 < count && d.isDigit && digitRuns (count - 1) rest)

def looksNumeric : List Char → Bool
  | [] => false
  | c :: rest => c.isDigit && digitRuns 3 rest

def isOctet (cs : List Char) : Bool :=
  !cs.isEmpty && cs.length ≤ 3 && cs.all Char.isDigit && (cs.length == 1 || cs.head? != some '0') &&
    cs.foldl (fun n c => n * 10 + (c.toNat - '0'.toNat)) 0 ≤ 255

def isIpv4 (cs : List Char) : Bool :=
  let parts := Text.splitOnChar '.' cs
  parts.length == 4 && parts.all isOctet

/-! ## Eight groups -/

def isGroup (cs : List Char) : Bool :=
  !cs.isEmpty && cs.length ≤ 4 && cs.all fun c => (Text.hexDigit? c).isSome

/-- Groups on both sides of a gap; an empty outer part belongs to the gap. -/
def gapAt (parts : List (List Char)) (gap : Nat) : Bool :=
  let left := parts.take gap
  let right := parts.drop (gap + 1)
  let left := if left == [[]] then [] else left
  let right := if right == [[]] then [] else right
  left.all isGroup && right.all isGroup && left.length + right.length < 8

/-- The last part may be four numbers, which stand for two groups. -/
def foldTail (parts : List (List Char)) : Option (List (List Char)) :=
  match parts.getLast? with
  | some last =>
    if last.contains '.' then
      if isIpv4 last then some (parts.dropLast ++ [['0'], ['0']]) else none
    else some parts
  | none => none

def isIpv6Groups (cs : List Char) : Bool :=
  let parts := Text.splitOnChar ':' cs
  if parts.length < 3 then false
  else
    match foldTail parts with
    | none => false
    | some parts =>
      let gaps := (List.range parts.length).filter fun i =>
        0 < i && i + 1 < parts.length && parts[i]? == some []
      if parts.length > 9 then false
      else
        match gaps with
        | [] => parts.length == 8 && parts.all isGroup
        | [gap] => gapAt parts gap
        | _ => false

def isIpv6 (cs : List Char) : Bool :=
  match Text.cutAtFirst '%' cs with
  | (address, none) => isIpv6Groups address
  | (address, some zone) => !zone.isEmpty && !zone.contains '%' && isIpv6Groups address

/-! ## All hosts -/

def parse [Client] (given : String) : Except UrlFault String :=
  let cs := given.toList
  if cs.isEmpty then .ok ""
  else if looksNumeric cs then if isIpv4 cs then .ok given else .error (.ipv4 given)
  else if cs.head? = some '[' ∧ cs.getLast? = some ']' ∧ 2 ≤ cs.length then
    let inner := (cs.drop 1).dropLast
    if isIpv6 inner then .ok (String.ofList inner) else .error (.ipv6 given)
  else if cs.all (·.toNat < 0x80) then
    .ok (String.ofList (Percent.encode Percent.hostSafe (cs.map Char.toLower)))
  else
    match Client.encodeHost? given with
    | some name => .ok (String.ofList name.chars)
    | none => .error (.hostName given)

end HdfsBrowser.Host
