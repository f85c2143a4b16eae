import HdfsBrowser.Http.Message

/-!
# Exchanges

A request and the redirections that it leads to.  Each reply ends the exchange
or gives the next request: a redirection keeps the method and the content,
except that 302 and 303 ask for the other address with GET and without
content.  At most `maxRedirects` redirections are followed.
-/

namespace HdfsBrowser

structure Exchange where
  request : Request
  followed : Nat
  deriving DecidableEq, Repr

inductive Turn where
  | next (e : Exchange)
  | done (r : Response)
  | failed (reason : String)
  | raised (f : Fault)
  deriving DecidableEq, Repr

namespace Exchange

def maxRedirects : Nat := 20

def start (request : Request) : Exchange := ⟨request, 0⟩

def location? (r : Response) : Option String :=
  if r.status ∈ [301, 302, 303, 307, 308] then r.header? "location" else none

def nextMethod (status : Int) (method : Method) : Method :=
  if status = 302 ∨ status = 303 then .get else method

def nextBody (status : Int) (request : Request) : Bytes :=
  if nextMethod status request.method = request.method then request.body else []

/-! ## The next address -/

variable [Client]

/-- The host that the library shows; it decodes a name whose first label is encoded. -/
def shownHost (u : Url) : Except Fault String :=
  if ['x', 'n', '-', '-'].isPrefixOf u.host.toList then Client.decodeHost u.host else .ok u.host

/-- A location with a scheme and without a host is at the host of the request. -/
def atHost (current location : Url) : Except Fault Url :=
  if location.scheme = "" then .ok location
  else do
    let host ← shownHost location
    if host = "" then (location.withHost (← shownHost current)).mapError .address
    else .ok location

/-- The hosts of both addresses are read, to find out whether the other side stays the same. -/
def compareHosts (current u : Url) : Except Fault Unit := do
  let (first, second) := if current.scheme = u.scheme then (u, current) else (current, u)
  let _ ← shownHost first
  let _ ← shownHost second
  .ok ()

def target (current location : Url) : Except Fault Url := do
  let u ← atHost current location
  let u ← (if u.isAbsolute then .ok u else current.resolve u).mapError .address
  let u ← (if current.fragmentText != "" && u.fragmentText == "" then
      u.withFragment current.fragmentText
    else .ok u).mapError .address
  compareHosts current u
  .ok u

/-! ## Replies -/

def follow (e : Exchange) (status : Int) (location : String) : Turn :=
  match Url.parse location with
  | .error why => .failed ("Invalid URL in location header: " ++ why.message ++ ".")
  | .ok u =>
    match target e.request.address u with
    | .error f => .raised f
    | .ok address =>
      if maxRedirects ≤ e.followed then
        .raised (.redirects "Exceeded maximum allowed redirects.")
      else
        .next ⟨⟨nextMethod status e.request.method, address, nextBody status e.request⟩,
          e.followed + 1⟩

def receive (e : Exchange) : Reply → Turn
  | .failure kind message => .failed (if message = "" then kind.name else message)
  | .broken fault => .raised fault
  | .response r =>
    if e.request.address.scheme = "" then .raised (.unknownScheme e.request.address.text)
    else
      match location? r with
      | some location => follow e r.status location
      | none => .done r

end Exchange

end HdfsBrowser
