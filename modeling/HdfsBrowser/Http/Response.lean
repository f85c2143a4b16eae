import HdfsBrowser.Text.Column
import HdfsBrowser.Text.Utf8

/-!
# Responses

The status, the reason, the headers and the body that a server sends.
-/

namespace HdfsBrowser

structure Response where
  status : Int
  reason : String
  headers : List (String × String)
  body : Bytes
  deriving DecidableEq, Repr

namespace Response

/-- The part of a reason that a response can carry. -/
def phrase (reason : String) : String := String.ofList (reason.toList.filter (·.toNat < 128))

def header? (r : Response) (name : String) : Option String :=
  let lower (s : String) : String := String.ofList (s.toList.map Char.toLower)
  match r.headers.filter (fun (key, _) => lower key == lower name) with
  | [] => none
  | found => some (Text.joinWith ", " (found.map (·.2)))

def isSuccess (r : Response) : Bool := 200 ≤ r.status && r.status ≤ 299

end Response

end HdfsBrowser
