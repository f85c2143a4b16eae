import HdfsBrowser.Http.Message
import HdfsBrowser.Text.Charset

/-!
# Messages as bytes

The bytes of a request, and the response in the bytes that come back before
the other side closes the connection.  The content of a response is all that
follows its head, unless the head gives a length or says that the content
comes in chunks, each after its length in hexadecimal digits.
-/

namespace HdfsBrowser.Wire

/-! ## Requests -/

def lineEnd : String := "\r\n"

def target (u : Url) : String :=
  (if u.path = "" then "/" else u.path) ++ Url.marked "?" u.query

def hostPort (u : Url) : String :=
  u.hostText ++
    match u.port with
    | some n => ":" ++ Numeral.text n
    | none => ""

def requestHead (r : Request) : String :=
  r.method.name ++ " " ++ target r.address ++ " HTTP/1.1" ++ lineEnd ++
    "Host: " ++ hostPort r.address ++ lineEnd ++
    "Accept: */*" ++ lineEnd ++
    "Connection: close" ++ lineEnd ++
    (if r.method = .put then "Content-Length: " ++ Numeral.text r.body.length ++ lineEnd else "") ++
    lineEnd

def requestBytes (r : Request) : Bytes := Utf8.encode (requestHead r) ++ r.body

/-! ## Responses -/

def cutAtMark (mark : Bytes) : Bytes → Option (Bytes × Bytes)
  | [] => none
  | b :: bs =>
    if mark.isPrefixOf (b :: bs) then some ([], (b :: bs).drop mark.length)
    else (cutAtMark mark bs).map fun (before, after) => (b :: before, after)

def crlf : Bytes := [13, 10]

def headerOf (line : List Char) : String × String :=
  match Text.cutAtFirst ':' line with
  | (name, value) =>
    (String.ofList name, String.ofList (Text.trimBy Text.isBlank (value.getD [])))

def statusOf? (line : List Char) : Option (Int × String) :=
  match Text.splitOnChar ' ' line with
  | _ :: code :: reason =>
    match Numeral.read (String.ofList code) with
    | .ok n => some (n, String.ofList (List.intercalate [' '] reason))
    | .error _ => none
  | _ => none

def hexNumber (n : Nat) : List Char → Nat
  | [] => n
  | c :: cs =>
    match Text.hexDigit? c with
    | some d => hexNumber (n * 16 + d) cs
    | none => n

def latin (bs : Bytes) : List Char := (Charset.latin1.decodeLossy bs).toList

/-- The content of chunks; there are fewer chunks than bytes. -/
def unchunk : Nat → Bytes → Bytes
  | 0, _ => []
  | fuel + 1, bs =>
    match cutAtMark crlf bs with
    | none => []
    | some (size, rest) =>
      match hexNumber 0 (latin size) with
      | 0 => []
      | n => rest.take n ++ unchunk fuel (rest.drop (n + crlf.length))

def contentOf (head : Response) (rest : Bytes) : Bytes :=
  match head.header? "transfer-encoding", head.header? "content-length" with
  | some _, _ => unchunk rest.length rest
  | none, some length =>
    match Numeral.read length with
    | .ok n => rest.take n.toNat
    | .error _ => rest
  | none, none => rest

def response? (bs : Bytes) : Option Response := do
  let (head, rest) ← cutAtMark (crlf ++ crlf) bs
  let lines := (Text.splitOnChar '\n' (latin head)).map (Text.trimEndBy (· == '\r'))
  let (status, reason) ← statusOf? (lines.headD [])
  let empty : Response := ⟨status, Response.phrase reason, lines.tail.map headerOf, []⟩
  some { empty with body := contentOf empty rest }

def reply (bs : Bytes) : Reply :=
  match response? bs with
  | some r => .response r
  | none => .failure .remoteProtocol "Server disconnected without sending a response."

end HdfsBrowser.Wire
