import HdfsBrowser.Url.Basic

/-!
# Reading of addresses

A text is cut at the marks of an address: a scheme before the first colon, an
authority after two slashes, a path, a query after `?`, a fragment after `#`.
Texts of more than `lengthLimit` characters and texts with ASCII control
characters are refused.
-/

namespace HdfsBrowser.Url

def lengthLimit : Nat := 65536

def isControl (c : Char) : Bool := c.toNat < 0x20 || c.toNat == 0x7F

def findControl? : Nat → List Char → Option (Char × Nat)
  | _, [] => none
  | index, c :: cs => if isControl c then some (c, index) else findControl? (index + 1) cs

def checkText (s : String) : Except UrlFault Unit :=
  if s.length > lengthLimit then .error .tooLong
  else
    match findControl? 0 s.toList with
    | some (c, index) => .error (.control c index)
    | none => .ok ()

def checkPart (name s : String) : Except UrlFault Unit :=
  if s.length > lengthLimit then .error (.partTooLong name)
  else
    match findControl? 0 s.toList with
    | some (c, index) => .error (.partControl name c index)
    | none => .ok ()

/-! ## Cutting -/

def isSchemeChar (c : Char) : Bool := c.isAlphanum || c == '+' || c == '.' || c == '-'

def cutScheme (cs : List Char) : List Char × List Char :=
  let name := cs.takeWhile isSchemeChar
  match cs.drop name.length with
  | ':' :: rest =>
    match name with
    | [] => ([], rest)
    | c :: _ => if c.isAlpha then (name, rest) else ([], cs)
  | _ => ([], cs)

def cutAuthority : List Char → List Char × List Char
  | '/' :: '/' :: rest =>
    let stop (c : Char) : Bool := c == '/' || c == '?' || c == '#'
    (rest.takeWhile (!stop ·), rest.dropWhile (!stop ·))
  | cs => ([], cs)

def cutUser (cs : List Char) : List Char × List Char :=
  if cs.contains '@' then
    (((cs.reverse.dropWhile (· != '@')).drop 1).reverse,
     (cs.reverse.takeWhile (· != '@')).reverse)
  else ([], cs)

/-- The host and the port; a host in brackets ends with the last bracket. -/
def cutHost (cs : List Char) : List Char × List Char :=
  let (host, rest) :=
    if cs.head? = some '[' ∧ cs.contains ']' then
      let rest := (cs.reverse.takeWhile (· != ']')).reverse
      (cs.take (cs.length - rest.length), rest)
    else (cs.takeWhile (· != ':'), cs.dropWhile (· != ':'))
  (host, if rest.head? = some ':' then rest.drop 1 else rest)

def cut (s : String) : Parts :=
  let (scheme, rest) := cutScheme s.toList
  let (authority, rest) := cutAuthority rest
  let (beforeFragment, fragment) := Text.cutAtFirst '#' rest
  let (path, query) := Text.cutAtFirst '?' beforeFragment
  let (user, rest) := cutUser authority
  let (host, port) := cutHost rest
  { scheme := String.ofList scheme
    user := String.ofList user
    host := String.ofList host
    port := String.ofList port
    path := String.ofList path
    query := query.map String.ofList
    fragment := fragment.map String.ofList }

/-! ## Addresses of texts -/

variable [Client]

def parse (s : String) : Except UrlFault Url := do
  checkText s
  ofParts (cut s)

def parseWithQuery (s query : String) : Except UrlFault Url := do
  checkText s
  checkPart "query" query
  ofParts { cut s with query := some query }

def withHost (u : Url) (host : String) : Except UrlFault Url :=
  let bracketed := if host.toList.contains ':' then "[" ++ host ++ "]" else host
  ofParts { u.parts with host := bracketed }

def withFragment (u : Url) (fragment : String) : Except UrlFault Url := do
  checkPart "fragment" fragment
  ofParts { u.parts with fragment := some fragment }

def fragmentText (u : Url) : String :=
  Utf8.decodeLossy (Percent.decode (u.fragment.getD "").toList)

/-! ## References -/

def treeSchemes : List String :=
  ["", "ftp", "http", "gopher", "nntp", "imap", "wais", "file", "https", "shttp", "mms",
   "prospero", "rtsp", "rtspu", "sftp", "svn", "svn+ssh", "ws", "wss"]

/-- The segments of a reference after those of the directory that it starts from; empty
segments between the first and the last fall away. -/
def mergeSegments (base reference : List Char) : List (List Char) :=
  if reference.head? = some '/' then Text.splitOnChar '/' reference
  else
    let directory := (Text.splitOnChar '/' base).reverse
    let directory := if directory.head? = some [] then directory else directory.drop 1
    match directory.reverse ++ Text.splitOnChar '/' reference with
    | [] => []
    | first :: rest =>
      first :: (rest.dropLast.filter (!·.isEmpty)) ++ rest.drop (rest.length - 1)

/-- Follows one segment of a reference, up to and above the root. -/
def climb (done : List (List Char)) (segment : List Char) : List (List Char) :=
  if segment = ['.'] then done
  else if segment = ['.', '.'] then done.drop 1
  else segment :: done

def mergePath (base reference : List Char) : List Char :=
  let segments := mergeSegments base reference
  let followed := segments.foldl climb []
  let ended :=
    match segments.getLast? with
    | some last => if last = ['.'] ∨ last = ['.', '.'] then [] :: followed else followed
    | none => followed
  match List.intercalate ['/'] ended.reverse with
  | [] => ['/']
  | path => path

def parameterSchemes : List String :=
  ["", "ftp", "hdl", "prospero", "http", "imap", "https", "shttp", "rtsp", "rtspu", "sip", "sips",
   "mms", "sftp", "tel"]

def cutParameters (scheme : String) (path : List Char) : List Char × List Char :=
  if parameterSchemes.contains scheme then
    let segments := Text.splitOnChar '/' path
    match Text.cutAtFirst ';' (segments.getLast?.getD []) with
    | (last, some parameters) =>
      (List.intercalate ['/'] (segments.dropLast ++ [last]), parameters)
    | (_, none) => (path, [])
  else (path, [])

def markedIfAny (mark : Char) (cs : List Char) : List Char := if cs.isEmpty then [] else mark :: cs

structure Reference where
  authority : List Char
  path : List Char
  parameters : List Char
  query : List Char
  fragment : List Char
  deriving DecidableEq, Repr

def cutReference (scheme : String) (text : String) : String × Reference :=
  let (own, rest) := cutScheme text.toList
  let scheme := if own.isEmpty then scheme else String.ofList (own.map Char.toLower)
  let (authority, rest) := cutAuthority rest
  let (beforeFragment, fragment) := Text.cutAtFirst '#' rest
  let (path, query) := Text.cutAtFirst '?' beforeFragment
  let (path, parameters) := cutParameters scheme path
  (scheme, ⟨authority, path, parameters, query.getD [], fragment.getD []⟩)

def Reference.text (scheme : String) (r : Reference) : String :=
  let path := r.path ++ markedIfAny ';' r.parameters
  let path := if path.isEmpty || path.head? == some '/' then path else '/' :: path
  (if scheme = "" then "" else scheme ++ ":") ++ "//" ++
    String.ofList (r.authority ++ path ++ markedIfAny '?' r.query ++ markedIfAny '#' r.fragment)

/-- What a reference without authority denotes in an address. -/
def Reference.within (base r : Reference) : Reference :=
  if r.path.isEmpty && r.parameters.isEmpty then
    { r with
      authority := base.authority
      path := base.path
      parameters := base.parameters
      query := if r.query.isEmpty then base.query else r.query }
  else { r with authority := base.authority, path := mergePath base.path r.path }

def resolve (base reference : Url) : Except UrlFault Url :=
  let given := reference.text
  let (scheme, r) := cutReference base.scheme given
  if given = "" then parse base.text
  else if scheme != base.scheme || !treeSchemes.contains scheme then parse given
  else
    let whole := (cutReference "" base.text).2
    parse ((if r.authority.isEmpty then whole.within r else r).text scheme)

end HdfsBrowser.Url
