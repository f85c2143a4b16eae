import HdfsBrowser.Url.Host

/-!
# Addresses

The parts of an address after normalisation, and their text.  An address is
absolute when it has a scheme and a host.
-/

namespace HdfsBrowser

structure Url where
  scheme : String
  user : String
  host : String
  port : Option Int
  path : String
  query : Option String
  fragment : Option String
  deriving DecidableEq, Repr

namespace Url

def isAbsolute (u : Url) : Bool := u.scheme != "" && u.host != ""

def hostText (u : Url) : String :=
  if u.host.toList.contains ':' then "[" ++ u.host ++ "]" else u.host

def authority (u : Url) : String :=
  (if u.user = "" then "" else u.user ++ "@") ++ u.hostText ++
    (match u.port with
      | some n => ":" ++ Numeral.text n
      | none => "")

def marked (mark : String) : Option String → String
  | some s => mark ++ s
  | none => ""

def text (u : Url) : String :=
  (if u.scheme = "" then "" else u.scheme ++ ":") ++
    (if u.authority = "" then "" else "//" ++ u.authority) ++ u.path ++
    marked "?" u.query ++ marked "#" u.fragment

/-! ## Normalisation -/

def defaultPort? (scheme : String) : Option Int :=
  if scheme = "http" ∨ scheme = "ws" then some 80
  else if scheme = "https" ∨ scheme = "wss" then some 443
  else if scheme = "ftp" then some 21
  else none

def parsePort (scheme given : String) : Except UrlFault (Option Int) :=
  if given = "" then .ok none
  else
    match Numeral.read given with
    | .ok n => .ok (if some n = defaultPort? scheme then none else some n)
    | .error _ => .error (.port given)

def followSegment (done : List (List Char)) (segment : List Char) : List (List Char) :=
  if segment = ['.'] then done
  else if segment = ['.', '.'] then
    if done = [[]] then done else done.drop 1
  else segment :: done

/-- A path whose segments `.` and `..` have been followed, never above the root. -/
def removeDots (path : List Char) : List Char :=
  List.intercalate ['/'] (((Text.splitOnChar '/' path).foldl followSegment []).reverse)

def checkPath (hasScheme hasAuthority : Bool) (path : List Char) : Except UrlFault Unit :=
  if hasAuthority then
    if path.isEmpty || path.head? == some '/' then .ok () else .error .rootless
  else if hasScheme then .ok ()
  else if ['/', '/'].isPrefixOf path then .error .doubleSlash
  else if path.head? = some ':' then .error .leadingColon
  else .ok ()

structure Parts where
  scheme : String
  user : String
  host : String
  port : String
  path : String
  query : Option String
  fragment : Option String
  deriving DecidableEq, Repr

def encodePart (safe : Char → Bool) (s : String) : String :=
  String.ofList (Percent.encode safe s.toList)

def ofParts [Client] (p : Parts) : Except UrlFault Url := do
  let scheme := String.ofList (p.scheme.toList.map Char.toLower)
  let user := encodePart Percent.userSafe p.user
  let host ← Host.parse p.host
  let port ← parsePort p.scheme p.port
  let hasScheme := scheme != ""
  let hasAuthority := user != "" || host != "" || port.isSome
  checkPath hasScheme hasAuthority p.path.toList
  let path := if hasScheme || hasAuthority then removeDots p.path.toList else p.path.toList
  .ok {
    scheme, user, host, port
    path := String.ofList (Percent.encode Percent.pathSafe path)
    query := p.query.map (encodePart Percent.querySafe)
    fragment := p.fragment.map (encodePart Percent.fragmentSafe) }

def parts (u : Url) : Parts where
  scheme := u.scheme
  user := u.user
  host := u.hostText
  port := (u.port.map Numeral.text).getD ""
  path := u.path
  query := u.query
  fragment := u.fragment

end Url

end HdfsBrowser
